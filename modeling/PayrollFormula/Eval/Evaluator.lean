import PayrollFormula.Eval.Comparison
import PayrollFormula.Eval.Error
import PayrollFormula.Formula.Frames
import PayrollFormula.Formula.Part

/-!
# Evaluation of formulas

A formula is evaluated from left to right. The logical operators, the choice and the choice
function evaluate only what they need, and the result says which variables were read on the way.
Every intermediate value is checked, so that a value that is not a finite number ends the
evaluation. Nesting is limited: `Expr.eval` recurs from a node to its parts on a `Stack`, and fails
where there is no frame left for it.
-/

set_option autoImplicit false

namespace PayrollFormula

/-- A result with the names that were read for it, in order and with repetitions, or a failure. -/
def Eval (α : Type) : Type := Except EvalError (α × List String)

namespace Eval

/-- A result for which nothing is read. -/
protected def pure {α : Type} (a : α) : Eval α := .ok (a, [])

/-- One evaluation after another. -/
protected def bind {α β : Type} (x : Eval α) (f : α → Eval β) : Eval β :=
  match x with
  | .error e => .error e
  | .ok (a, reads) =>
    match f a with
    | .error e => .error e
    | .ok (b, more) => .ok (b, reads ++ more)

instance : Monad Eval where
  pure := Eval.pure
  bind := Eval.bind

/-- A failure. -/
def fail {α : Type} (e : EvalError) : Eval α := .error e

/-- The value of a name. -/
def reading {α : Type} (name : String) (a : α) : Eval α := .ok (a, [name])

/-- A number, unless it is not finite. -/
def finiteOr (e : EvalError) (x : Double) : Eval Double := if x.isFinite then pure x else fail e

/-- A computation that reads nothing. -/
def ofExcept {ε α : Type} (toError : ε → EvalError) : Except ε α → Eval α
  | .ok a => pure a
  | .error e => fail (toError e)

end Eval

/-- How formulas are evaluated: the tolerances of comparisons, or why they cannot be used, and the
functions that exist. -/
structure Evaluator where
  tolerances : Except NumberError Tolerances
  functions : List Builtin
deriving Repr

namespace Evaluator

/-- The evaluator with the usual tolerances and all functions. -/
def standard : Evaluator := ⟨.ok .standard, Builtin.all⟩

end Evaluator

/-- The number that a value binds a variable to: an integer, a decimal or rational number, or a
double, if it is finite as a double. -/
def Value.number? (v : Value) : Option Double :=
  (v.toDouble?.bind Except.toOption).filter (·.isFinite)

/-- The value of a variable. -/
def lookup (bindings : Fields) (name : String) : Eval Double :=
  match bindings.get? name with
  | none => .fail (.unknownVariable name (sortTexts bindings.names))
  | some v =>
    match v.number? with
    | some x => .reading name x
    | none => .fail (.invalidVariable name v.typeName)

/-- The value of a comparison, from whether two numbers are close. -/
def comparison (t : Except NumberError Tolerances) (x y : Double) (holds : Bool → Bool) :
    Eval Double :=
  match t with
  | .ok t => pure (.ofBool (holds (isClose t x y)))
  | .error e => .fail (.number e)

/-- The value of an operation on two values. The logical operators also evaluate by this rule if
both operands are needed. -/
def BinaryOp.apply (t : Except NumberError Tolerances) (op : BinaryOp) (x y : Double) :
    Eval Double :=
  match op with
  | .add => .finiteOr (.overflow op) (x.add y)
  | .sub => .finiteOr (.overflow op) (x.sub y)
  | .mul => .finiteOr (.overflow op) (x.mul y)
  | .div => if y.isZero then .fail (.divisionByZero op) else .finiteOr (.overflow op) (x.div y)
  | .mod =>
    if y.isZero then .fail (.divisionByZero op)
    else do .finiteOr (.overflow op) (← .ofExcept .number (x.remainder y))
  | .eq => comparison t x y fun close => close
  | .ne => comparison t x y fun close => !close
  | .lt => comparison t x y fun close => x.lt y && !close
  | .le => comparison t x y fun close => x.lt y || close
  | .gt => comparison t x y fun close => y.lt x && !close
  | .ge => comparison t x y fun close => y.lt x || close
  | .and => pure (.ofBool (x.isTrue && y.isTrue))
  | .or => pure (.ofBool (x.isTrue || y.isTrue))

/-- The value of the left operand alone, if it settles a logical operation. -/
def BinaryOp.settled? (op : BinaryOp) (x : Double) : Option Double :=
  match op with
  | .and => if x.isTrue then none else some .zero
  | .or => if x.isTrue then some .one else none
  | _ => none

/-- The value of a unary operation. -/
def UnaryOp.apply (op : UnaryOp) (x : Double) : Double :=
  match op with
  | .neg => x.neg
  | .not => .ofBool !x.isTrue

/-- How a failed function call fails the evaluation. -/
def EvalError.ofFailure : Builtin.Failure → EvalError
  | .call e => .call e
  | .number e => .number e

/-- The stack of a recursion over a formula: how many frames each kind of node takes, and how many
there are left. -/
structure Stack where
  costs : Frames
  free : Nat
deriving DecidableEq, Repr

/-- Goes on with some frames more taken, if there are that many left. Frames of functions that
return before the evaluation goes on to a part, such as the one that looks a variable up, are not
counted. -/
def Stack.enter {α : Type} (s : Stack) (n : Nat) (evaluation : Stack → Eval α) : Eval α :=
  if n ≤ s.free then evaluation ⟨s.costs, s.free - n⟩ else .fail .tooDeep

mutual

/-- Evaluates a formula on a stack. -/
def Expr.eval (ev : Evaluator) (bindings : Fields) : Expr → Stack → Eval Double
  | .literal x, s => s.enter 1 fun _ => pure (.finite x)
  | .variable name, s => s.enter 1 fun _ => lookup bindings name
  | .unary op a, s => s.enter s.costs.unary fun s => do
    let x ← a.eval ev bindings s
    return op.apply x
  | .binary op a b, s => s.enter s.costs.binary fun s => do
    let x ← a.eval ev bindings s
    match op.settled? x with
    | some v => return v
    | none =>
      let y ← b.eval ev bindings s
      op.apply ev.tolerances x y
  | .choice c a b, s => s.enter s.costs.choice fun s => do
    let x ← c.eval ev bindings s
    if x.isTrue then a.eval ev bindings s else b.eval ev bindings s
  | .call name args, s => s.enter s.costs.call fun s => do
    match Builtin.find? ev.functions name with
    | none => .fail (.call (.unknown name))
    | some f =>
      if args.length ≠ f.arity then .fail (.call (.arity f args.length))
      else
        let value ←
          match f, args with
          | .choose, [c, a, b] => s.enter s.costs.asked fun s => do
            let x ← c.eval ev bindings s
            if x.isTrue then a.eval ev bindings s else b.eval ev bindings s
          | f, args => do
            let xs ← s.enter s.costs.each (Expr.evalAll ev bindings args)
            .ofExcept .ofFailure (f.apply xs)
        .finiteOr (.notFinite name) value

/-- Evaluates several formulas on a stack, one after another. -/
def Expr.evalAll (ev : Evaluator) (bindings : Fields) : List Expr → Stack → Eval (List Double)
  | [], _ => return []
  | a :: rest, s => do
    let x ← a.eval ev bindings s
    let xs ← Expr.evalAll ev bindings rest s
    return x :: xs

end

/-- The value of a formula and the variables that were read for it, each once, in the order in
which they were first needed. -/
structure Outcome where
  value : Double
  used : List String
deriving DecidableEq, Repr

namespace Evaluator

/-- The stack that formulas are evaluated on. Of a thousand frames the evaluation itself and its
caller have taken one each. -/
def stack : Stack := ⟨.evaluation, 1000 - 2⟩

/-- Evaluates a formula under bindings. -/
def evaluate (ev : Evaluator) (e : Expr) (bindings : Fields) : Except EvalError Outcome :=
  match e.eval ev bindings stack with
  | .ok (value, reads) => .ok ⟨value, firstOccurrences reads⟩
  | .error err => .error err

/-- The bindings that a value stands for; an absent one binds nothing. -/
def bindingsOf : Value → Except EvalError Fields
  | .null => .ok []
  | .record fields => .ok fields
  | v => .error (.notBindings v.typeName)

/-- Evaluates what was handed in as a formula under what was handed in as bindings. -/
def run (ev : Evaluator) (tree : Part) (bindings : Value) : Except EvalError Outcome :=
  match tree with
  | .other .null => .error .noFormula
  | tree => do
    let fields ← bindingsOf bindings
    match tree with
    | .formula e => ev.evaluate e fields
    | .other v => .error (.notFormula v.typeName)

end Evaluator

end PayrollFormula
