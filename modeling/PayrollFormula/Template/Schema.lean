import PayrollFormula.Document
import PayrollFormula.Template.Basic

/-!
# Templates in documents

How templates, their parameters and their samples are read from records. Fields that are not
known are ignored.
-/

set_option autoImplicit false

namespace PayrollFormula

namespace Parameter

/-- Reads the kind of a parameter. -/
def readKind : Value → Reading ParameterKind
  | .text s => .ofOption (ParameterKind.ofName? s)
  | _ => .fail

/-- Reads a bound or a default, which may be absent. -/
def readNumber : Value → Reading (Option Double) := Value.readOptional Value.readDouble

/-- Reads a parameter. -/
def ofFields (fields : Fields) : Reading Parameter :=
  Parameter.mk
    <$> fields.required "name" (Value.readTextWith fun s => isName s.toList)
    <*> fields.optional "type" .number readKind
    <*> fields.optional "description" "" Value.readText
    <*> fields.optional "min" none readNumber
    <*> fields.optional "max" none readNumber
    <*> fields.optional "default" none readNumber

end Parameter

/-- Reads a sample. -/
def Sample.ofFields (fields : Fields) : Reading Sample :=
  Sample.mk
    <$> fields.optional "values" [] (Value.readEntries Value.readDouble)
    <*> fields.required "result" Value.readDouble

namespace Template

/-- Whether a character is an ASCII small letter. -/
def isSmallLetter (c : Char) : Bool := 'a' ≤ c && c ≤ 'z'

/-- Whether a text is a template's code: at most forty ASCII small letters, digits and underscores,
of which the first is a letter. -/
def isCode (s : String) : Bool :=
  match s.toList with
  | [] => false
  | c :: cs =>
    isSmallLetter c && cs.all (fun c => isSmallLetter c || isDigit c || c = '_') && cs.length < 40

/-- Whether a text is a description: from one to two hundred characters. -/
def isDescription (s : String) : Bool := 1 ≤ s.length && s.length ≤ 200

/-- Reads a template. -/
def ofFields (fields : Fields) : Reading Template :=
  Template.mk
    <$> fields.required "code" (Value.readTextWith isCode)
    <*> fields.required "name" Value.readText
    <*> fields.required "category" Value.readText
    <*> fields.required "description" (Value.readTextWith isDescription)
    <*> fields.required "formula" Value.readText
    <*> fields.optional "variables" [] (Value.readList Value.readText)
    <*> fields.optional "parameters" [] (Value.readList (Value.readRecord Parameter.ofFields))
    <*> fields.optional "example" none (Value.readOptional (Value.readRecord Sample.ofFields))

end Template

end PayrollFormula
