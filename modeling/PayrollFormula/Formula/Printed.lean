import PayrollFormula.Formula.Expr
import PayrollFormula.Number.Written

/-!
# The canonical text of a formula

Operators stand between single spaces, and parentheses only where a part binds less tightly than
its place demands. A right operand has to bind more tightly than its operator, since all operators
are left-associative.
-/

set_option autoImplicit false

namespace PayrollFormula

namespace Expr

/-- The binding strength of a formula's canonical text. A negative literal binds like the minus
sign that it starts with. -/
def level : Expr → Nat
  | .literal x => if x.ticks < 0 then UnaryOp.neg.level else 9
  | .variable _ | .call _ _ => 9
  | .unary op _ => op.level
  | .binary op _ _ => op.level
  | .choice _ _ _ => 1

/-- Puts a text in parentheses if its binding strength is below the one demanded. -/
def guarded (demanded level : Nat) (text : List Char) : List Char :=
  if level < demanded then '(' :: (text ++ [')']) else text

/-- A unary operator as it is written before its operand. -/
def unaryMark : UnaryOp → List Char
  | .neg => ['-']
  | .not => ['N', 'O', 'T', ' ']

mutual

/-- The canonical text of a formula. -/
def chars : Expr → List Char
  | .literal x => x.formulaText.toList
  | .variable name => name.toList
  | .unary op a => unaryMark op ++ guarded op.level a.level a.chars
  | .binary op a b =>
    guarded op.level a.level a.chars ++ ' ' :: op.symbol.toList ++ ' ' ::
      guarded (op.level + 1) b.level b.chars
  | .choice c a b =>
    guarded 2 c.level c.chars ++ [' ', '?', ' '] ++ a.chars ++ [' ', ':', ' '] ++ b.chars
  | .call name args => name.toList ++ '(' :: (argChars args ++ [')'])

/-- The canonical texts of arguments, separated by commas. -/
def argChars : List Expr → List Char
  | [] => []
  | [a] => a.chars
  | a :: rest => a.chars ++ ',' :: ' ' :: argChars rest

end

/-- The canonical text of a formula. -/
def text (e : Expr) : String := String.ofList e.chars

end Expr

end PayrollFormula
