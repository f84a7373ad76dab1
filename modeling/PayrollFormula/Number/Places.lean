import PayrollFormula.Number.Shortest

/-!
# Rounding to decimal places

A double is rounded as the decimal number that it is written as, not as its binary value: the
shortest numeral is rounded to a multiple of a power of ten, a half going away from zero, and the
result is read back as a double.
-/

set_option autoImplicit false

namespace PayrollFormula

/-- The quotient of two numbers, rounded to the nearest whole number; a half is rounded up. -/
def divHalfUp (a b : Nat) : Nat := (2 * a + b) / (2 * b)

/-- The multiple of `10 ^ (-places)` nearest to a numeral; a half goes to the greater multiple. -/
def Numeral.toPlaces (n : Numeral) (places : Int) : Numeral :=
  let shift := n.exponent + places
  if 0 ≤ shift then ⟨n.coefficient * Nat.pow 10 shift.toNat, -places⟩
  else ⟨divHalfUp n.coefficient (Nat.pow 10 (-shift).toNat), -places⟩

/-- The greatest number of digits that a rounded number may have. -/
def Numeral.maxDigits : Nat := 400

/-- A finite double rounded to decimal places, unless the rounded number has too many digits. -/
def Finite.toPlaces? (x : Finite) (places : Int) : Option Double :=
  let n := (Numeral.shortest x.rank).toPlaces places
  if n.coefficient < Nat.pow 10 Numeral.maxDigits then some (n.toDouble x.negative) else none

end PayrollFormula
