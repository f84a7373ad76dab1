import PayrollFormula.Formula.Parse
import PayrollFormula.Template.Catalogue

/-!
# Applied templates

A template is applied to numbers for its parameters. Every parameter gets the number supplied for
it or its default, which has to be within the parameter's bounds; the numbers are then written in
the place of the placeholders, negative ones in parentheses, and the resulting text has to be a
formula.
-/

set_option autoImplicit false

namespace PayrollFormula

/-- Why a template's parameters have no numbers. -/
inductive ParameterError where
  | unknown (names declared : List String)
  | missing (name : String)
  | notNumber (name : String) (value : Value)
  | notFinite (name : String) (value : Value)
  | number (e : NumberError)
  | outside (name : String) (low high : Double)
  | tooLow (name : String) (low : Double)
  | tooHigh (name : String) (high : Double)
deriving Repr

/-- The wording of the error. -/
def ParameterError.message : ParameterError → String
  | .unknown names declared =>
    "Unknown template parameter(s): " ++ listed names ++ ". Declared: " ++ listedOrNone declared
  | .missing name => "Missing required parameter: " ++ name
  | .notNumber name value =>
    "Parameter " ++ quoted name ++ " expects a number, got " ++ value.display
  | .notFinite name value =>
    "Parameter " ++ quoted name ++ " must be a finite number, got " ++ value.display
  | .number e => e.message
  | .outside name low high =>
    "Parameter " ++ name ++ " must be between " ++ low.formulaText ++ " and " ++ high.formulaText
  | .tooLow name low => "Parameter " ++ name ++ " must be at least " ++ low.formulaText
  | .tooHigh name high => "Parameter " ++ name ++ " must be at most " ++ high.formulaText

/-- Why a template is not applied. -/
inductive TemplateError where
  | lookup (e : LookupError)
  | parameter (e : ParameterError)
  | parse (e : ParseError)
deriving Repr

/-- The wording of the error. -/
def TemplateError.message : TemplateError → String
  | .lookup e => e.message
  | .parameter e => e.message
  | .parse e => e.text

/-- A formula made from a template, with the numbers that were written into it. -/
structure Applied where
  formula : String
  code : String
  name : String
  parameters : List (String × Double)
deriving DecidableEq, Repr

namespace Parameter

/-- The number that a value stands for, if it is finite. -/
def finiteOr (name : String) (value : Value) (x : Double) : Except ParameterError Double :=
  if x.isFinite then .ok x else .error (.notFinite name value)

/-- The finite number among the results of converting a value. -/
def converted (name : String) (value : Value) :
    Except NumberError Double → Except ParameterError Double
  | .ok x => finiteOr name value x
  | .error e => .error (.number e)

/-- The number that a supplied value stands for: a number or the text of one. -/
def supplied (name : String) (value : Value) : Except ParameterError Double :=
  match value with
  | .double x => finiteOr name value x
  | .int i => converted name value (Double.ofInt i)
  | .fraction q => converted name value (Double.ofRat q)
  | .text s =>
    match Double.read? s with
    | some x => finiteOr name value x
    | none => .error (.notNumber name value)
  | _ => .error (.notNumber name value)

/-- Refuses a number outside the bounds of the parameter. -/
def within (p : Parameter) (x : Double) : Except ParameterError Double :=
  match p.low, p.high with
  | some low, some high =>
    if low.le x && x.le high then .ok x else .error (.outside p.name low high)
  | some low, none => if x.lt low then .error (.tooLow p.name low) else .ok x
  | none, some high => if high.lt x then .error (.tooHigh p.name high) else .ok x
  | none, none => .ok x

/-- The number of a parameter, given the supplied values. -/
def number (values : Fields) (p : Parameter) : Except ParameterError Double :=
  match values.get? p.name, p.default with
  | some v, _ => do p.within (← supplied p.name v)
  | none, some x => p.within x
  | none, none => .error (.missing p.name)

end Parameter

namespace Template

/-- The names of the declared parameters, each once. -/
def parameterNames (t : Template) : List String :=
  firstOccurrences (t.parameters.map Parameter.name)

/-- The declared parameters, each name once. Of several declarations of a name the last counts. -/
def declared (t : Template) : List Parameter :=
  t.parameterNames.filterMap fun name => t.parameters.reverse.find? (·.name = name)

/-- The numbers of all parameters, given the supplied values. -/
def resolve (t : Template) (values : Fields) : Except ParameterError (List (String × Double)) :=
  match namesOutside values.names t.parameterNames with
  | [] => t.declared.mapM fun p => do return (p.name, ← p.number values)
  | unknown => .error (.unknown unknown (sortTexts t.parameterNames))

/-- A number as it is written into a formula. -/
def operandText (x : Double) : List Char :=
  let text := x.formulaText.toList
  if x.belowZero then '(' :: (text ++ [')']) else text

/-- The text that takes the place of a segment. A placeholder without a number stays. -/
def fill (numbers : List (String × Double)) : Segment → List Char
  | .plain c => [c]
  | .placeholder name =>
    match numbers.lookup (String.ofList name) with
    | some x => operandText x
    | none => '\x7b' :: (name ++ ['\x7d'])

/-- The formula with numbers in the place of the placeholders. -/
def substitute (t : Template) (numbers : List (String × Double)) : String :=
  String.ofList (t.segments.flatMap (fill numbers))

/-- Applies a template to supplied values. -/
def apply (limits : Limits) (t : Template) (values : Fields) : Except TemplateError Applied := do
  let numbers ← (t.resolve values).mapError .parameter
  let formula := t.substitute numbers
  match Formula.parse limits formula with
  | .error e => .error (.parse e)
  | .ok _ => return ⟨formula, t.code, t.name, numbers⟩

end Template

/-- Applies the template with a code to supplied values. -/
def Catalogue.apply (limits : Limits) (c : Catalogue) (code : String) (values : Fields) :
    Except TemplateError Applied :=
  match c.find code with
  | .error e => .error (.lookup e)
  | .ok t => t.apply limits values

end PayrollFormula
