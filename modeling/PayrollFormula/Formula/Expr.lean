import PayrollFormula.Number.Double
import PayrollFormula.Text.Names
import PayrollFormula.Text.UpperCase

/-!
# Formula trees

A formula is a number, a variable, an operation on smaller formulas, a choice between two of them,
or a call of a function by name. Literals are finite by their type. Binding strength is data of
the operators: the parser and the printer both read it from `BinaryOp.level` and `Expr.level`.
-/

set_option autoImplicit false

namespace PayrollFormula

/-- Operators with one operand. -/
inductive UnaryOp where
  | neg
  | not
deriving DecidableEq, Repr

/-- Operators with two operands. -/
inductive BinaryOp where
  | add
  | sub
  | mul
  | div
  | mod
  | eq
  | ne
  | lt
  | le
  | gt
  | ge
  | and
  | or
deriving DecidableEq, Repr

namespace UnaryOp

/-- How the operator is written. -/
def symbol : UnaryOp → String
  | .neg => "-"
  | .not => "NOT"

/-- The operator with a given symbol. -/
def ofSymbol? (s : String) : Option UnaryOp := [neg, not].find? (·.symbol = s)

/-- The binding strength of the operator. -/
def level : UnaryOp → Nat
  | .neg => 8
  | .not => 4

end UnaryOp

namespace BinaryOp

/-- How the operator is written. -/
def symbol : BinaryOp → String
  | .add => "+"
  | .sub => "-"
  | .mul => "*"
  | .div => "/"
  | .mod => "%"
  | .eq => "=="
  | .ne => "!="
  | .lt => "<"
  | .le => "<="
  | .gt => ">"
  | .ge => ">="
  | .and => "AND"
  | .or => "OR"

/-- All operators with two operands. -/
def all : List BinaryOp := [add, sub, mul, div, mod, eq, ne, lt, le, gt, ge, and, or]

/-- The operator with a given symbol. -/
def ofSymbol? (s : String) : Option BinaryOp := all.find? (·.symbol = s)

/-- The binding strength of the operator: a greater level binds its operands more tightly. All of
them are left-associative. -/
def level : BinaryOp → Nat
  | .or => 2
  | .and => 3
  | .eq | .ne | .lt | .le | .gt | .ge => 5
  | .add | .sub => 6
  | .mul | .div | .mod => 7

end BinaryOp

/-- A formula. -/
inductive Expr where
  | literal (value : Finite)
  | variable (name : String)
  | unary (op : UnaryOp) (operand : Expr)
  | binary (op : BinaryOp) (left right : Expr)
  | choice (condition whenTrue whenFalse : Expr)
  | call (name : String) (args : List Expr)
deriving Repr

namespace Expr

instance : Inhabited Expr := ⟨.literal .zero⟩

/-- A call by a name in any letter case; the tree holds the name in upper case. -/
def callNamed (name : String) (args : List Expr) : Expr := .call (upperCase name) args

/-- The parts of a formula from left to right. -/
def children : Expr → List Expr
  | .literal _ | .variable _ => []
  | .unary _ a => [a]
  | .binary _ a b => [a, b]
  | .choice c a b => [c, a, b]
  | .call _ args => args

mutual

/-- The number of nodes. -/
def size : Expr → Nat
  | .literal _ | .variable _ => 1
  | .unary _ a => a.size + 1
  | .binary _ a b => a.size + b.size + 1
  | .choice c a b => c.size + a.size + b.size + 1
  | .call _ args => totalSize args + 1

/-- The number of nodes of several formulas. -/
def totalSize : List Expr → Nat
  | [] => 0
  | a :: rest => a.size + totalSize rest

end

/-- The sizes of two lists of formulas add up. -/
theorem totalSize_append (xs ys : List Expr) :
    totalSize (xs ++ ys) = totalSize xs + totalSize ys := by
  induction xs with
  | nil => simp [totalSize]
  | cons x xs ih => simp only [List.cons_append, totalSize, ih]; omega

/-- The sizes of formulas add up in any order. -/
theorem totalSize_reverse (xs : List Expr) : totalSize xs.reverse = totalSize xs := by
  induction xs with
  | nil => rfl
  | cons x xs ih =>
    simp only [List.reverse_cons, totalSize_append, totalSize, ih]
    omega

/-- A formula has one node more than its parts together. -/
theorem totalSize_children (e : Expr) : totalSize e.children + 1 = e.size := by
  cases e <;> simp [children, totalSize, size]
  omega

/-- Visits the nodes of the pending formulas, each before its parts and from left to right. -/
def walk : List Expr → List Expr
  | [] => []
  | e :: pending => e :: walk (e.children ++ pending)
termination_by pending => totalSize pending
decreasing_by
  have h := totalSize_children e
  simp only [totalSize_append, totalSize]
  omega

/-- All nodes of a formula, each before its parts and from left to right. -/
def nodes (e : Expr) : List Expr := walk [e]

/-- The greatest depth among pending formulas, each paired with the depth at which it stands. The
parts of a formula are visited from right to left. -/
def deepest (found : Nat) : List (Expr × Nat) → Nat
  | [] => found
  | (e, d) :: pending => deepest (max found d) ((e.children.map (·, d + 1)).reverse ++ pending)
termination_by pending => totalSize (pending.map Prod.fst)
decreasing_by
  have h := totalSize_children e
  simp only [List.map_append, List.map_reverse, List.map_map, Function.comp_def, List.map_id',
    totalSize_append, totalSize_reverse, List.map_cons, totalSize]
  omega

/-- The depth of a formula; one without parts has depth one. -/
def depth (e : Expr) : Nat := deepest 0 [(e, 1)]

/-- The name of a variable node. -/
def variableName? : Expr → Option String
  | .variable name => some name
  | _ => none

/-- Adds the variables in pending formulas to those that were found before, each behind the others
where it first occurs. -/
def collect (found : List String) : List Expr → List String
  | [] => found
  | e :: pending =>
    match e.variableName? with
    | some name => collect (appendNew found name) pending
    | none => collect found (e.children ++ pending)
termination_by pending => totalSize pending
decreasing_by
  all_goals
    have h := totalSize_children e
    simp only [totalSize_append, totalSize]
    omega

/-- The variables of a formula in order of their first occurrence, whichever side of a choice they
stand on. -/
def variableNames (e : Expr) : List String := collect [] [e]

mutual

/-- Whether two formulas are the same, literals being compared as numbers. -/
def same : Expr → Expr → Bool
  | .literal x, .literal y => x.ticks = y.ticks
  | .variable n, .variable m => n = m
  | .unary o a, .unary p b => o = p && a.same b
  | .binary o a b, .binary p c d => o = p && a.same c && b.same d
  | .choice a b c, .choice d e f => a.same d && b.same e && c.same f
  | .call n args, .call m brgs => n = m && sameAll args brgs
  | _, _ => false

/-- Whether two lists of formulas agree place by place. -/
def sameAll : List Expr → List Expr → Bool
  | [], [] => true
  | a :: as, b :: bs => a.same b && sameAll as bs
  | _, _ => false

end

end Expr

end PayrollFormula
