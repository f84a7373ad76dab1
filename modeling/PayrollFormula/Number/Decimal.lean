import PayrollFormula.Number.Written

/-!
# Decimal numbers

Decimal numbers as they come from accounting systems: a sign, a coefficient and a power of ten,
all of which are kept, so `1.50` and `1.5` are different. Infinite and undefined ones exist too.
-/

set_option autoImplicit false

namespace PayrollFormula

/-- A decimal number. -/
inductive Decimal where
  | finite (negative : Bool) (coefficient : Nat) (exponent : Int)
  | infinite (negative : Bool)
  | nan (negative signaling : Bool)
deriving DecidableEq, Repr

namespace Decimal

/-- The double nearest to a decimal number, which is infinite if the number is too large. -/
def toDouble : Decimal → Except NumberError Double
  | .finite negative c e => .ok ((Numeral.mk c e).toDouble negative)
  | .infinite negative => .ok (.infinite negative)
  | .nan _ false => .ok .nan
  | .nan _ true => .error .signalingNan

/-- The text of a coefficient and a power of ten: positional if the power is not positive and the
number not too small, with an exponent otherwise. -/
def magnitudeText (coefficient : Nat) (exponent : Int) : List Char :=
  let ds := decimalDigits coefficient
  let n : Int := ds.length
  let left := exponent + n
  let point := if exponent ≤ 0 ∧ -6 < left then left else 1
  let digits :=
    if point ≤ 0 then '0' :: '.' :: (List.replicate (-point).toNat '0' ++ ds)
    else if n ≤ point then ds
    else ds.take point.toNat ++ '.' :: ds.drop point.toNat
  if left = point then digits
  else
    let e := left - point
    digits ++ 'E' :: (if e < 0 then '-' else '+') :: decimalDigits e.natAbs

/-- The text of a decimal number. -/
def text : Decimal → String
  | .finite negative c e => String.ofList (Finite.signed negative (magnitudeText c e))
  | .infinite negative => if negative then "-Infinity" else "Infinity"
  | .nan negative signaling =>
    (if negative then "-" else "") ++ (if signaling then "sNaN" else "NaN")

end Decimal

end PayrollFormula
