import PayrollFormula.Eval.Builtin
import PayrollFormula.Formula.Expr

/-!
# Failures of evaluation

Why a formula has no value under given bindings. Each failure has a kind, which callers tell
failures apart by, and a wording.
-/

set_option autoImplicit false

namespace PayrollFormula

/-- Why evaluation fails. -/
inductive EvalError where
  | noFormula
  | notFormula (typeName : String)
  | notBindings (typeName : String)
  | tooDeep
  | divisionByZero (op : BinaryOp)
  | overflow (op : BinaryOp)
  | unknownVariable (name : String) (available : List String)
  | invalidVariable (name typeName : String)
  | call (e : CallError)
  | notFinite (function : String)
  | number (e : NumberError)
deriving DecidableEq, Repr

namespace EvalError

/-- The name of the failure's kind. -/
def kind : EvalError → String
  | .divisionByZero _ => "DivisionByZeroError"
  | .unknownVariable _ _ => "UnknownVariableError"
  | .invalidVariable _ _ => "InvalidVariableError"
  | .call _ => "FunctionError"
  | .number _ => "ArithmeticError"
  | .noFormula | .notFormula _ | .notBindings _ | .tooDeep | .overflow _ | .notFinite _ =>
    "ExecutionError"

/-- The wording of the failure. -/
def message : EvalError → String
  | .noFormula => "No formula AST to execute"
  | .notFormula typeName => "Unknown node type: " ++ typeName
  | .notBindings typeName => "Bindings must be a mapping, got " ++ typeName
  | .tooDeep => "Formula is nested too deeply to evaluate"
  | .divisionByZero op =>
    (if op = .div then "Division" else "Modulo") ++ " by zero in formula"
  | .overflow op => "Arithmetic overflow in " ++ quoted op.symbol
  | .unknownVariable name available =>
    "Variable " ++ quoted name ++ " is not defined"
      ++ (if available.isEmpty then "" else ". Available: " ++ quotedList available)
  | .invalidVariable name typeName =>
    "Variable " ++ quoted name ++ " has invalid numeric value (" ++ typeName ++ ")"
  | .call e => e.message
  | .notFinite function => function ++ " produced a non-finite result"
  | .number e => e.message

end EvalError

end PayrollFormula
