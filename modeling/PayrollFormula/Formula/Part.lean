import PayrollFormula.Formula.Expr
import PayrollFormula.Number.Written
import PayrollFormula.Value

/-!
# Formulas built by hand

Trees can also be put together without a text, from parts that may turn out to be no formulas.
Each kind of node checks what it is given: first its own name, number or operator, then its parts
from left to right.
-/

set_option autoImplicit false

namespace PayrollFormula

/-- What is handed in where a formula is expected: a formula, or a value that is none. -/
inductive Part where
  | formula (e : Expr)
  | other (v : Value)
deriving Repr

/-- Why a node is not built. -/
inductive BuildError where
  | notNumber (typeName : String)
  | notFinite (x : Double)
  | number (e : NumberError)
  | variableName
  | functionName
  | unknownUnary (symbol : String)
  | unknownBinary (symbol : String)
  | notPart (place typeName : String)
  | notFormula (typeName : String)
deriving DecidableEq, Repr, Inhabited

namespace BuildError

/-- The wording of the error. -/
def message : BuildError → String
  | .notNumber typeName => "Literal.value must be a number, got " ++ typeName
  | .notFinite x => "Literal.value must be finite, got " ++ x.text
  | .number e => e.message
  | .variableName => "Variable.name must be a non-empty string"
  | .functionName => "FunctionCall.name must be a non-empty string"
  | .unknownUnary symbol => quoted symbol ++ " is not a valid UnaryOperator"
  | .unknownBinary symbol => quoted symbol ++ " is not a valid BinaryOperator"
  | .notPart place typeName => place ++ " must be an AST node, got " ++ typeName
  | .notFormula typeName => "Unknown node type: " ++ typeName

end BuildError

namespace Part

instance : Inhabited Part := ⟨.other .null⟩

/-- The formula that a part is. -/
def expr : Part → Except BuildError Expr
  | .formula e => .ok e
  | .other v => .error (.notFormula v.typeName)

/-- The formula that a part is, at a named place of a node. -/
def exprAt (place : String) : Part → Except BuildError Expr
  | .formula e => .ok e
  | .other v => .error (.notPart place v.typeName)

end Part

namespace Expr

/-- A literal of a value, which has to be a finite number. -/
def ofValue (v : Value) : Except BuildError Expr :=
  let finite (x : Double) : Except BuildError Expr :=
    match x with
    | .finite x => .ok (.literal x)
    | x => .error (.notFinite x)
  match v with
  | .double x => finite x
  | .int i =>
    match Double.ofInt i with
    | .ok x => finite x
    | .error e => .error (.number e)
  | v => .error (.notNumber v.typeName)

/-- A variable whose name is a value, which has to be a text that is not empty. -/
def ofName (v : Value) : Except BuildError Expr :=
  match v with
  | .text s => if s.isEmpty then .error .variableName else .ok (.variable s)
  | _ => .error .variableName

/-- A unary operation from a symbol and a part. -/
def ofUnary (symbol : String) (operand : Part) : Except BuildError Expr := do
  match UnaryOp.ofSymbol? symbol with
  | none => .error (.unknownUnary symbol)
  | some op => return .unary op (← operand.exprAt "UnaryOp.operand")

/-- A binary operation from a symbol and two parts. -/
def ofBinary (symbol : String) (left right : Part) : Except BuildError Expr := do
  match BinaryOp.ofSymbol? symbol with
  | none => .error (.unknownBinary symbol)
  | some op =>
    let a ← left.exprAt "BinaryOp.left"
    let b ← right.exprAt "BinaryOp.right"
    return .binary op a b

/-- A choice from three parts. -/
def ofChoice (condition whenTrue whenFalse : Part) : Except BuildError Expr := do
  let c ← condition.exprAt "Ternary.condition"
  let a ← whenTrue.exprAt "Ternary.then_branch"
  let b ← whenFalse.exprAt "Ternary.else_branch"
  return .choice c a b

/-- The arguments of a call from parts, the first of which has index `i`. -/
def argsOf (i : Nat) : List Part → Except BuildError (List Expr)
  | [] => .ok []
  | p :: ps => do
    let e ← p.exprAt s!"FunctionCall.args[{i}]"
    return e :: (← argsOf (i + 1) ps)

/-- A call from a value as its name and parts as its arguments. -/
def ofCall (name : Value) (args : List Part) : Except BuildError Expr :=
  match name with
  | .text s =>
    if s.isEmpty then .error .functionName
    else (argsOf 0 args).map (.callNamed s)
  | _ => .error .functionName

end Expr

end PayrollFormula
