import PayrollFormula.Number.Double
import PayrollFormula.Text.CharClass

/-!
# Decimal numerals

A numeral is an exact decimal number, a coefficient times a power of ten. `Numeral.rank` gives the
rank nearest to its value. The written form of a numeral in a formula is `12`, `12.5`, `12.`, `.5`,
each with an optional exponent; `Numeral.split` cuts the longest such text off the front of a list
of characters, and `Numeral.read` gives the number that it stands for.
-/

set_option autoImplicit false

namespace PayrollFormula

/-- The exact number `coefficient * 10 ^ exponent`. -/
structure Numeral where
  coefficient : Nat
  exponent : Int
deriving DecidableEq, Repr

/-- The number that a list of digits writes. -/
def digitsValue (ds : List Char) : Nat :=
  ds.foldl (fun n c => 10 * n + (c.toNat - '0'.toNat)) 0

namespace Numeral

/-- The rank nearest to the numeral. An exponent that settles the outcome by itself is decided
first: above `10 ^ 400` every positive number overflows, and below `2 ^ (-1080)` every number
rounds to zero. -/
def rank (n : Numeral) : Nat :=
  if n.coefficient = 0 then 0
  else if 400 < n.exponent then Rank.limit
  else if 3 * n.exponent + n.coefficient.log2 + 1081 < 0 then 0
  else
    Rank.nearest (n.coefficient * Nat.pow 10 n.exponent.toNat * Rank.one)
      (Nat.pow 10 (-n.exponent).toNat)

/-- The double nearest to the numeral, under the given sign. -/
def toDouble (n : Numeral) (negative : Bool) : Double := Double.ofRank negative n.rank

/-- The parts of a written numeral: the digits before the point, the point with the digits after
it, and the exponent with its mark. Together they are the text. -/
structure Parts where
  whole : List Char
  point : List Char
  power : List Char
deriving DecidableEq, Repr

/-- The text of a written numeral. -/
def Parts.text (p : Parts) : List Char := p.whole ++ p.point ++ p.power

/-- Splits off a point and the digits that follow it. -/
def splitPoint : List Char → List Char × List Char
  | '.' :: cs => ('.' :: cs.takeWhile isDigit, cs.dropWhile isDigit)
  | cs => ([], cs)

/-- Splits off a sign. -/
def splitSign : List Char → List Char × List Char
  | '+' :: cs => (['+'], cs)
  | '-' :: cs => (['-'], cs)
  | cs => ([], cs)

/-- Splits off an exponent: a mark, an optional sign and at least one digit. -/
def splitPower : List Char → List Char × List Char
  | [] => ([], [])
  | m :: cs =>
    let sign := (splitSign cs).1
    let rest := (splitSign cs).2
    let ds := rest.takeWhile isDigit
    if (m = 'e' ∨ m = 'E') ∧ ds ≠ [] then (m :: (sign ++ ds), rest.dropWhile isDigit)
    else ([], m :: cs)

/-- Splits the longest written numeral off the front of the text; there is one if the text starts
with a digit, or with a point before a digit. -/
def split (cs : List Char) : Option (Parts × List Char) :=
  let whole := cs.takeWhile isDigit
  let pointed := splitPoint (cs.dropWhile isDigit)
  let powered := splitPower pointed.2
  if whole = [] ∧ pointed.1.tail = [] then none
  else some (⟨whole, pointed.1, powered.1⟩, powered.2)

/-- The value of a written exponent; an absent one counts as zero. -/
def powerValue (power : List Char) : Int :=
  match splitSign power.tail with
  | (['-'], ds) => -(digitsValue ds : Int)
  | (_, ds) => digitsValue ds

/-- The number that a written numeral stands for. -/
def Parts.value (p : Parts) : Numeral where
  coefficient := digitsValue (p.whole ++ p.point.tail)
  exponent := powerValue p.power - p.point.tail.length

/-- Reads a text that is one written numeral as a whole. -/
def read (cs : List Char) : Option Numeral :=
  match split cs with
  | some (p, []) => some p.value
  | _ => none

end Numeral

end PayrollFormula
