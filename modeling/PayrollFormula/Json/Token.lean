import PayrollFormula.Number.Integer
import PayrollFormula.Value

/-!
# Tokens of JSON

A JSON line is cut into tokens from the left. Texts are decoded on the way; besides the scalars of
JSON, the names of the undefined and the infinite numbers are understood. An integer with very many
digits is not converted, and is a token of its own.
-/

set_option autoImplicit false

namespace PayrollFormula

namespace Json

/-- A token. -/
inductive Token where
  | openBrace
  | closeBrace
  | openBracket
  | closeBracket
  | comma
  | colon
  | text (s : String)
  | scalar (v : Value)
  | longInteger (digits : Nat)
deriving Repr

/-- The value of a hexadecimal digit. -/
def hexDigit? (c : Char) : Option Nat :=
  if '0' ≤ c ∧ c ≤ '9' then some (c.toNat - '0'.toNat)
  else if 'a' ≤ c ∧ c ≤ 'f' then some (c.toNat - 'a'.toNat + 10)
  else if 'A' ≤ c ∧ c ≤ 'F' then some (c.toNat - 'A'.toNat + 10)
  else none

/-- The value of four hexadecimal digits. -/
def hexUnit? (a b c d : Char) : Option Nat := do
  let w ← hexDigit? a
  let x ← hexDigit? b
  let y ← hexDigit? c
  let z ← hexDigit? d
  return ((w * 16 + x) * 16 + y) * 16 + z

/-- The character that a letter after a backslash stands for. -/
def escape? (c : Char) : Option Nat :=
  if c = '"' ∨ c = '\\' ∨ c = '/' then some c.toNat
  else if c = 'b' then some 8
  else if c = 'f' then some 12
  else if c = 'n' then some 10
  else if c = 'r' then some 13
  else if c = 't' then some 9
  else none

/-- The code units of a text up to its closing quote, and the number of characters read. -/
def textUnits : List Char → Option (List Nat × Nat)
  | [] => none
  | '"' :: _ => some ([], 1)
  | '\\' :: 'u' :: a :: b :: c :: d :: cs => do
    let n ← hexUnit? a b c d
    let (units, length) ← textUnits cs
    return (n :: units, length + 6)
  | '\\' :: c :: cs => do
    let n ← escape? c
    let (units, length) ← textUnits cs
    return (n :: units, length + 2)
  | c :: cs =>
    if c.toNat < 32 then none
    else do
      let (units, length) ← textUnits cs
      return (c.toNat :: units, length + 1)

/-- Whether a code unit is the first of a pair. -/
def isHigh (n : Nat) : Bool := 0xd800 ≤ n && n < 0xdc00

/-- Whether a code unit is the second of a pair. -/
def isLow (n : Nat) : Bool := 0xdc00 ≤ n && n < 0xe000

/-- The character of a code unit that is not part of a pair; half a pair is replaced. -/
def unitChar (n : Nat) : Char := if isHigh n || isLow n then Char.ofNat 0xfffd else Char.ofNat n

/-- The characters of code units, pairs being joined. -/
def joinUnits : List Nat → List Char
  | [] => []
  | [n] => [unitChar n]
  | m :: n :: rest =>
    if isHigh m && isLow n then
      Char.ofNat (0x10000 + (m - 0xd800) * 0x400 + (n - 0xdc00)) :: joinUnits rest
    else unitChar m :: joinUnits (n :: rest)

/-- Splits off a point with at least one digit after it. -/
def splitFraction (cs : List Char) : List Char × List Char :=
  if (Numeral.splitPoint cs).1.tail = [] then ([], cs) else Numeral.splitPoint cs

/-- The parts of an unsigned number at the front of a text. A leading zero stands alone. -/
def numberParts? (cs : List Char) : Option Numeral.Parts :=
  match cs.takeWhile isDigit with
  | [] => none
  | d :: ds =>
    let whole := if d = '0' then ['0'] else d :: ds
    let pointed := splitFraction (cs.drop whole.length)
    some ⟨whole, pointed.1, (Numeral.splitPower pointed.2).1⟩

/-- The token of a number. -/
def numberToken (negative : Bool) (p : Numeral.Parts) : Token :=
  if p.point = [] ∧ p.power = [] then
    if Integer.maxDigits < p.whole.length then .longInteger p.whole.length
    else .scalar (.int (if negative then -(digitsValue p.whole : Int) else digitsValue p.whole))
  else .scalar (.double (p.value.toDouble negative))

/-- The words of JSON and what they stand for. -/
def words : List (String × Value) := [
  ("null", .null), ("true", .bool true), ("false", .bool false), ("NaN", .double .nan),
  ("Infinity", .double (.infinite false)), ("-Infinity", .double (.infinite true))]

/-- The word at the front of a text, with its length. -/
def word? (cs : List Char) : Option (Token × Nat) :=
  (words.find? fun w => w.1.toList.isPrefixOf cs).map fun w => (.scalar w.2, w.1.length)

/-- The number at the front of a text, with its length. -/
def number? : List Char → Option (Token × Nat)
  | '-' :: cs => (numberParts? cs).map fun p => (numberToken true p, p.text.length + 1)
  | cs => (numberParts? cs).map fun p => (numberToken false p, p.text.length)

/-- The token at the front of a text, with its length. -/
def lexeme? : List Char → Option (Token × Nat)
  | '\x7b' :: _ => some (.openBrace, 1)
  | '\x7d' :: _ => some (.closeBrace, 1)
  | '[' :: _ => some (.openBracket, 1)
  | ']' :: _ => some (.closeBracket, 1)
  | ',' :: _ => some (.comma, 1)
  | ':' :: _ => some (.colon, 1)
  | '"' :: cs =>
    (textUnits cs).map fun (units, length) =>
      (.text (String.ofList (joinUnits units)), length + 1)
  | cs => (word? cs).or (number? cs)

/-- Whether a character may stand between tokens. -/
def isSpace (c : Char) : Bool := c = ' ' || c = '\t' || c = '\n' || c = '\r'

/-- The tokens of a text after skipping characters, and whether they reach its end. -/
def scanFrom (skip : Nat) : List Char → List Token × Bool
  | [] => ([], true)
  | c :: cs =>
    match skip with
    | skip + 1 => scanFrom skip cs
    | 0 =>
      if isSpace c then scanFrom 0 cs
      else
        match lexeme? (c :: cs) with
        | none => ([], false)
        | some (t, length) =>
          let later := scanFrom (length - 1) cs
          (t :: later.1, later.2)

/-- The tokens of a text, and whether they reach its end. -/
def scan (cs : List Char) : List Token × Bool := scanFrom 0 cs

end Json

end PayrollFormula
