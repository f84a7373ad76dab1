import PayrollFormula.Number.Double
import PayrollFormula.Text.Names

/-!
# Templates

A template is a formula with placeholders in braces where a parameter's number is to be written.
It declares its parameters with their bounds and defaults. The formula of a template is cut into
segments: placeholders, and the characters around them.
-/

set_option autoImplicit false

namespace PayrollFormula

/-- What a parameter is a number of. -/
inductive ParameterKind where
  | percentage
  | fixed
  | number
deriving DecidableEq, Repr

namespace ParameterKind

/-- The name of the kind in documents. -/
def name : ParameterKind → String
  | .percentage => "percentage"
  | .fixed => "fixed"
  | .number => "number"

/-- The kind with a given name. -/
def ofName? (s : String) : Option ParameterKind := [percentage, fixed, number].find? (·.name = s)

end ParameterKind

/-- A declared parameter. -/
structure Parameter where
  name : String
  kind : ParameterKind
  description : String
  min : Option Double
  max : Option Double
  default : Option Double
deriving DecidableEq, Repr

namespace Parameter

/-- One hundred per cent. -/
def hundred : Double := .round false (100 * Rank.one) 1

/-- The least number that the parameter may have; a percentage is at least zero unless its
declaration says otherwise. -/
def low (p : Parameter) : Option Double :=
  match p.kind with
  | .percentage => some (p.min.getD .zero)
  | _ => p.min

/-- The greatest number that the parameter may have; a percentage is at most one hundred unless
its declaration says otherwise. -/
def high (p : Parameter) : Option Double :=
  match p.kind with
  | .percentage => some (p.max.getD hundred)
  | _ => p.max

end Parameter

/-- Sample bindings of a template's formula with the value that it has under them. -/
structure Sample where
  values : List (String × Double)
  result : Double
deriving DecidableEq, Repr

/-- A formula with placeholders, and what is said about it. -/
structure Template where
  code : String
  name : String
  category : String
  description : String
  formula : String
  variableNames : List String
  parameters : List Parameter
  sample : Option Sample
deriving DecidableEq, Repr

/-- A piece of a template's formula. -/
inductive Segment where
  | plain (c : Char)
  | placeholder (name : List Char)
deriving DecidableEq, Repr

namespace Segment

/-- The name of the placeholder that a text starts with, if it does. -/
def opening? : List Char → Option (List Char)
  | '\x7b' :: cs =>
    match cs.takeWhile isNameChar, cs.dropWhile isNameChar with
    | name, '\x7d' :: _ => if isName name then some name else none
    | _, _ => none
  | _ => none

/-- Cuts a text into segments after skipping characters. -/
def cut (skip : Nat) : List Char → List Segment
  | [] => []
  | c :: cs =>
    match skip with
    | skip + 1 => cut skip cs
    | 0 =>
      match opening? (c :: cs) with
      | some name => .placeholder name :: cut (name.length + 1) cs
      | none => .plain c :: cut 0 cs

/-- The name of a placeholder. -/
def name? : Segment → Option String
  | .plain _ => none
  | .placeholder name => some (String.ofList name)

end Segment

namespace Template

/-- The segments of the formula. -/
def segments (t : Template) : List Segment := Segment.cut 0 t.formula.toList

/-- The names of the placeholders, each once, in order of their first occurrence. -/
def placeholders (t : Template) : List String :=
  firstOccurrences (t.segments.filterMap Segment.name?)

end Template

end PayrollFormula
