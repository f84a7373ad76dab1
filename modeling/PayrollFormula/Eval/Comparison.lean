import PayrollFormula.Number.Double

/-!
# Comparison up to tolerances

Amounts that went through binary arithmetic are compared up to a relative and an absolute
tolerance. Numbers that are close count as equal, so of less, equal and greater exactly one holds.
-/

set_option autoImplicit false

namespace PayrollFormula

/-- Tolerances for comparing numbers. Neither is below zero. -/
structure Tolerances where
  relative : Double
  absolute : Double
  relative_nonneg : relative.belowZero = false
  absolute_nonneg : absolute.belowZero = false
deriving DecidableEq, Repr

namespace Tolerances

/-- One part in a thousand million, the usual absolute tolerance. -/
def billionth : Finite := ⟨false, 4472406533629990549, by decide⟩

/-- The tolerances that hold unless others are asked for. -/
def standard : Tolerances :=
  ⟨.zero, .finite billionth, Double.belowZero_eq_false rfl, Double.belowZero_eq_false rfl⟩

/-- The wording with which tolerances below zero are refused. -/
def refusal : String := "Tolerances must be non-negative"

/-- Tolerances from two numbers, unless one is below zero. -/
def ofDoubles? (relative absolute : Double) : Option Tolerances :=
  if h : relative.belowZero = false ∧ absolute.belowZero = false then
    some ⟨relative, absolute, h.1, h.2⟩
  else none

end Tolerances

/-- Whether two numbers are equal up to the tolerances. Equal numbers are close under all
tolerances, and an infinite number is close to nothing else. -/
def isClose (t : Tolerances) (x y : Double) : Bool :=
  if x.numEq y then true
  else if x.isFinite && y.isFinite then
    let distance := (y.sub x).abs
    distance.le (t.relative.mul y).abs || distance.le (t.relative.mul x).abs
      || distance.le t.absolute
  else false

end PayrollFormula
