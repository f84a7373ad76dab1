import PayrollFormula.Eval.Builtin
import PayrollFormula.Formula.Parse

/-!
# Validation of formulas

A formula is checked without being evaluated: that its text can be read, that the functions that
it calls exist and get as many arguments as they take, and that its variables are among those that
will be bound. All issues are listed, those of calls first, in the order of the text.
-/

set_option autoImplicit false

namespace PayrollFormula

/-- What is wrong with a formula. -/
inductive Issue where
  | text (e : ParseError)
  | unknownFunction (name : String)
  | arity (name : String) (expected count : Nat)
  | unknownVariable (name : String)
deriving DecidableEq, Repr

namespace Issue

/-- The code of the issue's kind. -/
def code : Issue → String
  | .text _ => "syntax_error"
  | .unknownFunction _ => "unknown_function"
  | .arity _ _ _ => "wrong_arity"
  | .unknownVariable _ => "unknown_variable"

/-- The wording of the issue. -/
def message : Issue → String
  | .text e => e.message
  | .unknownFunction name => "Unknown function: " ++ quoted name
  | .arity name expected count => s!"{name} requires exactly {expected} argument(s), got {count}"
  | .unknownVariable name => "Variable " ++ quoted name ++ " is not available"

/-- The offset of the issue in the text, if it is known. -/
def position : Issue → Option Nat
  | .text e => e.position
  | _ => none

end Issue

/-- The issues of a formula and the variables that occur in it. -/
structure Validation where
  issues : List Issue
  variableNames : List String
deriving DecidableEq, Repr

/-- Whether there is nothing wrong with a formula. -/
def Validation.valid (v : Validation) : Bool := v.issues.isEmpty

namespace Expr

/-- The issue of a node that calls a function, given how many arguments each function takes. -/
def callIssue? (arities : String → Option Nat) : Expr → Option Issue
  | .call name args =>
    match arities name with
    | none => some (.unknownFunction name)
    | some n => if args.length = n then none else some (.arity name n args.length)
  | _ => none

/-- The issues of the calls in a formula. -/
def callIssues (arities : String → Option Nat) (e : Expr) : List Issue :=
  e.nodes.filterMap (callIssue? arities)

/-- The issues of the variables of a formula, if it is known which ones will be bound. -/
def variableIssues (known : Option (List String)) (e : Expr) : List Issue :=
  match known with
  | none => []
  | some names => (e.variableNames.filter (!names.contains ·)).map .unknownVariable

/-- Checks a formula. -/
def validate (arities : String → Option Nat) (known : Option (List String)) (e : Expr) :
    Validation :=
  ⟨e.callIssues arities ++ e.variableIssues known, e.variableNames⟩

end Expr

/-- How many arguments the functions of a table take, by their names. -/
def Builtin.arities (table : List Builtin) (name : String) : Option Nat :=
  (find? table name).map arity

namespace Formula

/-- Checks a text, given how many arguments each function takes. A text that cannot be read has that
issue alone. -/
def check (limits : Limits) (arities : String → Option Nat) (known : Option (List String))
    (text : Value) : Validation :=
  match parseValue limits text with
  | .error e => ⟨[.text e], []⟩
  | .ok e => e.validate arities known

/-- Checks a text, given the functions that exist. -/
def validate (limits : Limits) (functions : List Builtin) (known : Option (List String))
    (text : Value) : Validation :=
  check limits (Builtin.arities functions) known text

end Formula

end PayrollFormula
