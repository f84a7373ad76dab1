import PayrollFormula.Eval.Calculation

/-!
# Trial runs

An author tries a formula on sample values. The trial never fails itself: its result says what
came out or what went wrong.
-/

set_option autoImplicit false

namespace PayrollFormula

/-- The result of trying a formula. -/
inductive Trial where
  | passed (outcome : Outcome)
  | failed (error : FormulaError)
deriving DecidableEq, Repr

namespace Trial

/-- Whether the formula had a value. -/
def success : Trial → Bool
  | .passed _ => true
  | .failed _ => false

/-- What the author is told. -/
def message : Trial → String
  | .passed _ => "Formula is valid"
  | .failed (.eval (.divisionByZero _)) => "Formula test failed: division by zero"
  | .failed e => "Formula test failed: " ++ e.text

/-- The result of a calculation as that of a trial. -/
def ofResult : Except FormulaError Outcome → Trial
  | .ok outcome => .passed outcome
  | .error e => .failed e

end Trial

/-- Tries a text on sample values. -/
def Formula.trial (limits : Limits) (ev : Evaluator) (text bindings : Value) : Trial :=
  .ofResult (calculate limits ev text bindings)

end PayrollFormula
