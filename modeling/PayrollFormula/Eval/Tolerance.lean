import PayrollFormula.Eval.Comparison
import PayrollFormula.Value

/-!
# Tolerances from values

Tolerances may be handed over as numbers of any sort. Their sign is checked on the exact numbers;
whether doubles stand for them matters only to the comparisons that use them, so a number beyond
the range of doubles is no reason to refuse tolerances.
-/

set_option autoImplicit false

namespace PayrollFormula

/-- Why values are not taken as tolerances. -/
inductive ToleranceError where
  | negative
  | undefined
  | notNumber (typeName : String)
deriving DecidableEq, Repr

/-- The wording of the error. -/
def ToleranceError.message : ToleranceError → String
  | .negative => Tolerances.refusal
  | .undefined => "Tolerances must be defined"
  | .notNumber typeName =>
    "'<' not supported between instances of " ++ quoted typeName ++ " and 'int'"

namespace Tolerances

/-- Refuses a value that is below zero, or that cannot be compared with zero. An undefined double
is not below zero, but an undefined decimal number is refused. -/
def check : Value → Except ToleranceError Unit
  | .double x => if x.belowZero then .error .negative else .ok ()
  | .int i => if i < 0 then .error .negative else .ok ()
  | .bool _ => .ok ()
  | .decimal (.finite negative c _) => if negative ∧ c ≠ 0 then .error .negative else .ok ()
  | .decimal (.infinite negative) => if negative then .error .negative else .ok ()
  | .decimal (.nan _ _) => .error .undefined
  | .fraction q => if q.num < 0 then .error .negative else .ok ()
  | v => .error (.notNumber v.typeName)

/-- The double of a checked value. -/
def double : Value → Except NumberError Double
  | .bool b => .ok (.ofBool b)
  | v => v.toDouble?.getD (.ok .zero)

/-- The tolerances that two values stand for, or why they are no doubles. -/
def ofValues (relative absolute : Value) :
    Except ToleranceError (Except NumberError Tolerances) := do
  check relative
  check absolute
  match double relative, double absolute with
  | .error e, _ => return .error e
  | _, .error e => return .error e
  | .ok r, .ok a =>
    match ofDoubles? r a with
    | some t => return .ok t
    | none => .error .negative

end Tolerances

end PayrollFormula
