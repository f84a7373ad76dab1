import PayrollFormula.Document
import PayrollFormula.Text.Sha256
import PayrollFormula.Log.Redaction

/-!
# Events

What is logged about formulas. An event has to name what it is about: most kinds the hash of the
formula's text, the application of a template the template's code. An event without it is kept, as
a warning that lists what is missing. Before an event is written, its context is redacted and this
attribution is checked, which is `Event.prepared`.
-/

set_option autoImplicit false

namespace PayrollFormula

/-- A value that is none of the names expected. -/
inductive NameError where
  | level (given : Value)
  | kind (given : Value)
deriving Repr

/-- The wording of the error. -/
def NameError.message : NameError → String
  | .level given => given.display ++ " is not a valid EventLevel"
  | .kind given => given.display ++ " is not a valid EventType"

/-- How serious an event is. -/
inductive Level where
  | info
  | warning
  | error
deriving DecidableEq, Repr

namespace Level

/-- The name of the level. -/
def name : Level → String
  | .info => "info"
  | .warning => "warning"
  | .error => "error"

/-- The level with a given name. -/
def ofName? (s : String) : Option Level := [info, warning, error].find? (·.name = s)

/-- The level that a value names. -/
def ofValue (v : Value) : Except NameError Level :=
  match v.text?.bind ofName? with
  | some level => .ok level
  | none => .error (.level v)

end Level

/-- What an event reports. -/
inductive EventKind where
  | parsed
  | parseFailed
  | executed
  | executionFailed
  | divisionByZero
  | validated
  | templateApplied
deriving DecidableEq, Repr

namespace EventKind

/-- The name of the kind. -/
def name : EventKind → String
  | .parsed => "formula_parsed"
  | .parseFailed => "formula_parse_failed"
  | .executed => "formula_executed"
  | .executionFailed => "formula_execution_failed"
  | .divisionByZero => "formula_division_by_zero"
  | .validated => "formula_validated"
  | .templateApplied => "template_applied"

/-- All kinds. -/
def all : List EventKind :=
  [parsed, parseFailed, executed, executionFailed, divisionByZero, validated, templateApplied]

/-- The kind with a given name. -/
def ofName? (s : String) : Option EventKind := all.find? (·.name = s)

/-- The kind that a value names. -/
def ofValue (v : Value) : Except NameError EventKind :=
  match v.text?.bind ofName? with
  | some kind => .ok kind
  | none => .error (.kind v)

end EventKind

/-- An event. -/
structure Event where
  version : Int
  time : String
  level : Level
  kind : EventKind
  context : Fields
  message : String
  errorCode : Option String
deriving Repr

namespace Event

/-- The field of a context that holds the hash of a formula's text. -/
def hashField : String := "formula_sha256"

/-- The field of a context that holds the code of a template. -/
def templateField : String := "template_code"

/-- The field of a context that holds how long an evaluation took. -/
def durationField : String := "execution_time_ms"

/-- A text that may be missing. -/
def optionalText : Option String → Value
  | some s => .text s
  | none => .null

/-- An event as a record. -/
def toFields (e : Event) : Fields := [
  ("schema_version", .int e.version),
  ("ts", .text e.time),
  ("level", .text e.level.name),
  ("event_type", .text e.kind.name),
  ("context", .record e.context),
  ("message", .text e.message),
  ("error_code", optionalText e.errorCode)]

/-- Reads an event that happened at a given time. -/
def ofFields (time : String) (fields : Fields) : Reading Event :=
  Event.mk
    <$> fields.optional "schema_version" 1 Value.readInteger
    <*> .ok time
    <*> fields.required "level" (fun v => .ofOption (Level.ofValue v).toOption)
    <*> fields.required "event_type" (fun v => .ofOption (EventKind.ofValue v).toOption)
    <*> fields.optional "context" [] (Value.readRecord .ok)
    <*> fields.optional "message" "" Value.readText
    <*> fields.optional "error_code" none (Value.readOptional Value.readText)

/-- An event of the current version. -/
def report (time : String) (kind : EventKind) (level : Level) (message : String)
    (context : Fields) (errorCode : Option String) : Event :=
  ⟨1, time, level, kind, context, message, errorCode⟩

/-- The context of an event about a formula: the hash of its text if the text is given, the
formula's name if it has one, and whatever else is given. -/
def formulaContext (formula formulaId : Option String) (extra : Fields) : Fields :=
  let hash : Fields :=
    match formula with
    | some text => [(hashField, .text (textDigest text))]
    | none => []
  let name : Fields :=
    match formulaId with
    | some id => [("formula_id", .text id)]
    | none => []
  Fields.update (hash ++ name) extra

/-- The field that an event of a kind has to have in its context. -/
def requiredField : EventKind → String
  | .templateApplied => templateField
  | _ => hashField

/-- The event as a warning that lists what is missing in its context, if something is. -/
def attributed (e : Event) : Event :=
  let field := requiredField e.kind
  if e.context.has field then e
  else
    { e with
      level := .warning
      context := Fields.set "_missing_attribution" (.list [.text field]) e.context }

/-- The event without what must not be logged. -/
def redacted (e : Event) : Event := { e with context := Redaction.fields e.context }

/-- The event as it is logged. -/
def prepared (e : Event) : Event := e.redacted.attributed

end Event

end PayrollFormula
