import PayrollFormula.Eval.Evaluator
import PayrollFormula.Formula.Parse

/-!
# Calculations from text

A calculation reads a text as a formula and evaluates it under bindings. It fails for the reason
for which the text is no formula or for which the formula has no value.
-/

set_option autoImplicit false

namespace PayrollFormula

/-- Why a text has no value under bindings. -/
inductive FormulaError where
  | parse (e : ParseError)
  | eval (e : EvalError)
deriving DecidableEq, Repr

namespace FormulaError

/-- The name of the failure's kind. -/
def kind : FormulaError → String
  | .parse _ => "ParseError"
  | .eval e => e.kind

/-- The full text of the failure. -/
def text : FormulaError → String
  | .parse e => e.text
  | .eval e => e.message

end FormulaError

namespace Formula

/-- The value of a text under bindings. -/
def calculate (limits : Limits) (ev : Evaluator) (text bindings : Value) :
    Except FormulaError Outcome :=
  match parseValue limits text with
  | .error e => .error (.parse e)
  | .ok e => (ev.run (.formula e) bindings).mapError .eval

end Formula

end PayrollFormula
