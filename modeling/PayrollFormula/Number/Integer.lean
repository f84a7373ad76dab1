import PayrollFormula.Number.Reading

/-!
# Integers in documents

A field that has to hold an integer may hold anything that stands for one: a number without a
fractional part, or a text of digits. Around the digits there may be white space, before them a
sign and zeros, between them single underscores, and after them a point with zeros.
-/

set_option autoImplicit false

namespace PayrollFormula

namespace Integer

/-- The greatest number of digits, a sign not counted, of an integer that is converted from or to a
text. -/
def maxDigits : Nat := 4300

/-- Reads an integer in its only plain form: digits without a zero at the front, after a minus sign
if it is negative. -/
def readPlain? (cs : List Char) : Option Int :=
  let negative := cs.head? = some '-'
  let ds := if negative then cs.tail else cs
  if ds = [] ∨ ¬ ds.all isDigit then none
  else if (ds.head? = some '0' ∧ ds ≠ ['0']) ∨ maxDigits < ds.length then none
  else some (if negative then -(digitsValue ds : Int) else digitsValue ds)

/-- Drops the zeros and underscores at the front of a text that comes after a zero or after one of
them. The last of them stays if nothing or a point follows; otherwise a digit or a minus sign has
to follow. -/
def afterZeros (before : Char) : List Char → Option (List Char)
  | [] => some [before]
  | c :: cs =>
    if c = '0' || c = '_' then afterZeros c cs
    else if isDigit c || c = '-' then some (c :: cs)
    else if c = '.' then some (before :: c :: cs)
    else none

/-- Drops the zeros at the front of a text that starts with a digit. -/
def dropZeros? : List Char → Option (List Char)
  | [] => none
  | c :: cs => if c = '0' then afterZeros c cs else if isDigit c then some (c :: cs) else none

/-- Drops a point and what follows it if these are zeros, of which there is at least one. -/
def dropZeroFraction (cs : List Char) : List Char :=
  match cs.dropWhile (· ≠ '.') with
  | _ :: z :: zs => if (z :: zs).all (· = '0') then cs.takeWhile (· ≠ '.') else cs
  | _ => cs

/-- Reads an integer from a text. -/
def read? (s : String) : Option Int := do
  let (negative, rest) := takeSign (trimmed isWhite s.toList)
  let ds := dropZeroFraction (← dropZeros? rest)
  let ds := (withoutUnderscores? ds).getD ds
  readPlain? (if negative then '-' :: ds else ds)

/-- The integer that a double is, if it is one and has less than sixty-four bits. -/
def ofDouble? : Double → Option Int
  | .finite x =>
    if x.isWhole ∧ x.magnitude < Nat.pow 2 63 * Rank.one then some x.floor else none
  | _ => none

/-- The integer that a decimal number is. A coefficient that is too short for the power of ten by
which it would have to be divisible is not divided. -/
def ofDecimal? : Decimal → Option Int
  | .finite negative c e =>
    let signed (n : Nat) : Int := if negative then -(n : Int) else n
    let places := (-e).toNat
    if c = 0 then some 0
    else if 0 ≤ e then some (signed (c * Nat.pow 10 e.toNat))
    else if c.log2 < places then none
    else if c % Nat.pow 10 places = 0 then some (signed (c / Nat.pow 10 places))
    else none
  | _ => none

/-- The integer that a rational number is. -/
def ofRat? (q : Rat) : Option Int := if q.den = 1 then some q.num else none

end Integer

end PayrollFormula
