import PayrollFormula.Number.Shortest

/-!
# Written doubles

`Double.text` is the text of a double on its own: its shortest digits, always with a point, in
positional form for decimal exponents from -4 to 15 and with an exponent otherwise.
`Double.formulaText` is its text inside a formula, where a whole number below `10 ^ 16` has no
point.
-/

set_option autoImplicit false

namespace PayrollFormula

/-- The text of a natural number in base ten. -/
def decimalDigits (n : Nat) : List Char := Nat.toDigits 10 n

/-- The digits of a number whose point stands before place `point`, positionally. -/
def positional (ds : List Char) (point : Int) : List Char :=
  if point ≤ 0 then '0' :: '.' :: (List.replicate (-point).toNat '0' ++ ds)
  else if (ds.length : Int) ≤ point then
    ds ++ List.replicate (point.toNat - ds.length) '0' ++ ['.', '0']
  else ds.take point.toNat ++ '.' :: ds.drop point.toNat

/-- A decimal exponent with its mark, its sign and at least two digits. -/
def exponentMark (e : Int) : List Char :=
  let ds := decimalDigits e.natAbs
  'e' :: (if e < 0 then '-' else '+') :: (if ds.length < 2 then '0' :: ds else ds)

/-- The digits with a point after the first and a decimal exponent. -/
def scientific (ds : List Char) (e : Int) : List Char :=
  match ds with
  | [] => exponentMark e
  | [d] => d :: exponentMark e
  | d :: rest => d :: '.' :: rest ++ exponentMark e

/-- The text of a numeral: positional for decimal exponents from -4 to 15. -/
def Numeral.text (n : Numeral) : List Char :=
  let ds := decimalDigits n.coefficient
  let point := (ds.length : Int) + n.exponent
  if -4 < point ∧ point ≤ 16 then positional ds point else scientific ds (point - 1)

namespace Finite

/-- Writes a minus sign before the text of a negative number. -/
def signed (negative : Bool) (text : List Char) : List Char :=
  if negative then '-' :: text else text

/-- The shortest text of a finite double that reads back as it. -/
def text (x : Finite) : String :=
  String.ofList (signed x.negative (Numeral.shortest x.rank).text)

/-- Whether the number is whole and below `10 ^ 16` in magnitude. -/
def isShortInteger (x : Finite) : Bool :=
  x.isWhole && x.magnitude < Nat.pow 10 16 * Rank.one

/-- The text of a finite double inside a formula. Both zeros are written `0`. -/
def formulaText (x : Finite) : String :=
  if x.isShortInteger then
    String.ofList (signed (x.ticks < 0) (decimalDigits (x.magnitude / Rank.one)))
  else x.text

end Finite

namespace Double

/-- The text of a double on its own. -/
def text : Double → String
  | .finite x => x.text
  | .infinite negative => if negative then "-inf" else "inf"
  | .nan => "nan"

/-- The text of a double inside a formula. -/
def formulaText : Double → String
  | .finite x => x.formulaText
  | x => x.text

end Double

end PayrollFormula
