import PayrollFormula.Json.Read
import PayrollFormula.Json.Written
import PayrollFormula.Log.Event
import PayrollFormula.Log.Store
import PayrollFormula.Text.Lines
import PayrollFormula.Text.Utf8

/-!
# Journals

A journal writes events to the files of a log, one line of JSON each, and reads them back from the
end of a file. Writing goes first to the file for all events and then to that of the run, so a
failure of the first leaves no trace. Reading skips lines that are no JSON.
-/

set_option autoImplicit false

namespace PayrollFormula

/-- The files of a log, and how many bytes at their end are read. Nothing can be read of a file if
that number is negative. -/
structure Journal where
  store : Store
  tailBytes : Int

/-- Why an event is not written, or not everywhere. -/
inductive WriteError where
  | tooManyLevels
  | longInteger
  | file (e : FileError)
deriving DecidableEq, Repr

/-- The wording of the error, for a log in a directory. -/
def WriteError.message (directory : String) : WriteError → String
  | .tooManyLevels => "Maximum serialization depth exceeded"
  | .longInteger =>
    s!"Exceeds the limit ({Integer.maxDigits} digits) for integer string conversion; "
      ++ "use sys.set_int_max_str_digits() to increase the limit"
  | .file e => e.message directory

/-- Why a log is not read. -/
inductive LogError where
  | blocked
  | nameTooLong (file : LogFile)
  | negativeLength
  | longInteger (digits : Nat)
  | tooDeep (isList : Bool)
  | notRecord
deriving DecidableEq, Repr

/-- The wording of the error, for a log in a directory. -/
def LogError.message (directory : String) : LogError → String
  | .blocked => "[Errno 21] Is a directory"
  | .nameTooLong file => FileError.message directory (.nameTooLong file)
  | .negativeLength => "[Errno 22] Invalid argument"
  | .longInteger digits =>
    s!"Exceeds the limit ({Integer.maxDigits} digits) for integer string conversion: "
      ++ s!"value has {digits} digits; use sys.set_int_max_str_digits() to increase the limit"
  | .tooDeep isList =>
    "maximum recursion depth exceeded while decoding a JSON "
      ++ (if isList then "array" else "object") ++ " from a unicode string"
  | .notRecord => "the event is not a record"

/-- Which events are asked for: those with certain fields, and how many of them. -/
structure Query where
  level : Option String
  kind : Option String
  hash : Option String
  limit : Int
deriving DecidableEq, Repr

namespace Query

/-- The query for the usual number of events of any sort. -/
def standard : Query := ⟨none, none, none, 200⟩

/-- The greatest number of events that a query gives. -/
def maxLimit : Int := 2000

/-- The number of elements that a limit leaves of a list: a negative one takes so many away. -/
def kept (limit : Int) (length : Nat) : Nat :=
  if 0 ≤ limit then limit.toNat else (length + limit).toNat

/-- The fields of an event that is a record. -/
def fieldsOf : Value → Except LogError Fields
  | .record fields => .ok fields
  | _ => .error .notRecord

/-- Whether a field of an event has a given text. -/
def fieldIs (name text : String) (e : Value) : Except LogError Bool := do
  match Fields.get? (← fieldsOf e) name with
  | some (.text s) => return s = text
  | _ => return false

/-- Whether the context of an event has a given hash; an event without a context has none. -/
def hashIs (hash : String) (e : Value) : Except LogError Bool := do
  match Fields.get? (← fieldsOf e) "context" with
  | some context => fieldIs Event.hashField hash context
  | none => return false

/-- The events that pass a test, in order. -/
def select (test : Value → Except LogError Bool) : List Value → Except LogError (List Value)
  | [] => .ok []
  | e :: es => do
    let keep ← test e
    let rest ← select test es
    return if keep then e :: rest else rest

/-- The events that pass the test for a text. No text and an empty one ask for nothing. -/
def selectBy (test : String → Value → Except LogError Bool) (text : Option String)
    (events : List Value) : Except LogError (List Value) :=
  match text with
  | none => .ok events
  | some s => if s.isEmpty then .ok events else select (test s) events

/-- The answer to a query: the newest events first. -/
def answer (q : Query) (events : List Value) : Except LogError (List Value) := do
  let events ← selectBy (fieldIs "level") q.level events
  let events ← selectBy (fieldIs "event_type") q.kind events
  let events ← selectBy hashIs q.hash events
  return events.reverse.take (kept (min q.limit maxLimit) events.length)

end Query

namespace Journal

/-- An event as a line of JSON. -/
def line (e : Event) : List Char := Json.write (.record e.toFields) ++ ['\n']

/-- An event as the bytes of a line. -/
def lineBytes (e : Event) : List UInt8 := Utf8.encode (String.ofList (line e))

/-- The file of a run; a name that cannot be that of a file has none. -/
def runFile? (run : Option String) : Option LogFile :=
  match run with
  | some name => if LogFile.isRunName name then some (.run name) else none
  | none => none

/-- Why an event has no line, if it has none. -/
def unwritable? (e : Event) : Option WriteError :=
  if Json.maxLevels < Json.fieldLevels e.context then some .tooManyLevels
  else if Json.hasLongInteger (.record e.toFields) then some .longInteger
  else none

/-- Writes an event to the file for all events and to that of its run. The journal is returned
with what went wrong. -/
def write (j : Journal) (e : Event) (run : Option String) : Journal × Option WriteError :=
  match unwritable? e with
  | some error => (j, some error)
  | none =>
    match j.store.extend .all (lineBytes e) with
    | .error error => (j, some (.file error))
    | .ok store =>
      match runFile? run with
      | none => ({ j with store }, none)
      | some file =>
        match store.extend file (lineBytes e) with
        | .error error => ({ j with store }, some (.file error))
        | .ok store => ({ j with store }, none)

/-- Writes an event as it is to be logged, and forgets about failures. -/
def emit (j : Journal) (e : Event) (run : Option String) : Journal := (j.write e.prepared run).1

/-- The end of a list of bytes. If bytes before it are left out, the rest of the line in which it
starts is left out too. -/
def tail (n : Nat) (bytes : List UInt8) : List UInt8 :=
  if bytes.length ≤ n then bytes
  else
    let kept := bytes.drop (bytes.length - n)
    match kept.dropWhile (· ≠ 10) with
    | [] => kept
    | _ :: rest => rest

/-- The values of the lines that are JSON. -/
def readLines : List (List Char) → Except LogError (List Value)
  | [] => .ok []
  | cs :: rest =>
    if (strip cs).isEmpty then readLines rest
    else
      match Json.read (strip cs) with
      | .ok v => (readLines rest).map (v :: ·)
      | .error .malformed => readLines rest
      | .error (.longInteger digits) => .error (.longInteger digits)
      | .error (.tooDeep isList) => .error (.tooDeep isList)

/-- The values in a file, the oldest first. -/
def events (j : Journal) (f : LogFile) : Except LogError (List Value) :=
  match j.store.obstacle? f, j.store.content? f with
  | some (.nameTooLong file), _ => .error (.nameTooLong file)
  | some (.blocked _), _ => .error (if j.tailBytes < 0 then .negativeLength else .blocked)
  | none, none => .ok []
  | none, some bytes =>
    if j.tailBytes < 0 then .error .negativeLength
    else readLines (splitLines (Utf8.decode (tail j.tailBytes.toNat bytes)))

/-- The events that a query asks for. -/
def query (j : Journal) (q : Query) : Except LogError (List Value) := do
  q.answer (← j.events .all)

/-- The events of a run, the oldest first. -/
def runEvents (j : Journal) (run : String) : Except LogError (List Value) :=
  if LogFile.isRunName run then j.events (.run run) else .ok []

end Journal

end PayrollFormula
