import PayrollFormula.Json.Token

/-!
# Reading JSON

The reader takes one token at a time. It keeps the lists and records that are still open and what
the last token left behind. Of several fields with one name the last counts. Text that is no JSON
is told apart from an integer that is too long to be converted and from too many open lists and
records, whichever comes first.
-/

set_option autoImplicit false

namespace PayrollFormula

namespace Json

/-- Why a text is not read. -/
inductive ReadError where
  | malformed
  | longInteger (digits : Nat)
  /-- Too many lists and records are open; whether the last of them is a list. -/
  | tooDeep (isList : Bool)
deriving DecidableEq, Repr

/-- A list or a record that waits for the value being read. -/
inductive Frame where
  /-- A list with the elements so far in reverse. -/
  | list (done : List Value)
  /-- A record with the fields so far, and the name of the next. -/
  | record (done : Fields) (name : String)
deriving Repr

/-- What the last token left behind. -/
inductive Focus where
  /-- A value has to start here. -/
  | value
  /-- The first element of a list has to start here, or the list ends. -/
  | firstItem
  /-- The first name of a record has to stand here, or the record ends. -/
  | firstName
  /-- The next name of a record has to stand here. -/
  | nextName (done : Fields)
  /-- A colon has to follow the name. -/
  | afterName (done : Fields) (name : String)
  /-- A finished value. -/
  | complete (v : Value)
deriving Repr

/-- The state of the reader between two tokens. -/
structure State where
  frames : List Frame
  focus : Focus
deriving Repr

/-- The state before the first token. -/
def initial : State := ⟨[], .value⟩

/-- The greatest number of lists and records that may be open. -/
def maxOpen : Nat := 985

/-- Reads the opening of a list or a record, if one more may be open. -/
def readOpening (frames : List Frame) (isList : Bool) (s : State) : Except ReadError State :=
  if frames.length < maxOpen then .ok s else .error (.tooDeep isList)

/-- Reads the first token of a value. -/
def readStart (frames : List Frame) : Token → Except ReadError State
  | .scalar v => .ok ⟨frames, .complete v⟩
  | .text s => .ok ⟨frames, .complete (.text s)⟩
  | .openBracket => readOpening frames true ⟨.list [] :: frames, .firstItem⟩
  | .openBrace => readOpening frames false ⟨frames, .firstName⟩
  | .longInteger digits => .error (.longInteger digits)
  | _ => .error .malformed

/-- Reads a token after a value. -/
def readAfter (frames : List Frame) (v : Value) (t : Token) : Except ReadError State :=
  match t, frames with
  | .comma, .list done :: fs => .ok ⟨.list (v :: done) :: fs, .value⟩
  | .comma, .record done name :: fs => .ok ⟨fs, .nextName (Fields.set name v done)⟩
  | .closeBracket, .list done :: fs => .ok ⟨fs, .complete (.list (v :: done).reverse)⟩
  | .closeBrace, .record done name :: fs =>
    .ok ⟨fs, .complete (.record (Fields.set name v done))⟩
  | _, _ => .error .malformed

/-- Reads one token. -/
def feed (s : State) (t : Token) : Except ReadError State :=
  match s.focus with
  | .value => readStart s.frames t
  | .firstItem =>
    match t, s.frames with
    | .closeBracket, .list _ :: fs => .ok ⟨fs, .complete (.list [])⟩
    | t, frames => readStart frames t
  | .firstName =>
    match t with
    | .closeBrace => .ok ⟨s.frames, .complete (.record [])⟩
    | .text name => .ok ⟨s.frames, .afterName [] name⟩
    | _ => .error .malformed
  | .nextName done =>
    match t with
    | .text name => .ok ⟨s.frames, .afterName done name⟩
    | _ => .error .malformed
  | .afterName done name =>
    match t with
    | .colon => .ok ⟨.record done name :: s.frames, .value⟩
    | _ => .error .malformed
  | .complete v => readAfter s.frames v t

/-- Reads tokens from a state on. -/
def run (s : State) : List Token → Except ReadError State
  | [] => .ok s
  | t :: ts =>
    match feed s t with
    | .ok s => run s ts
    | .error e => .error e

/-- The value that has been read, if nothing is open. -/
def finish (s : State) : Except ReadError Value :=
  match s.frames, s.focus with
  | [], .complete v => .ok v
  | _, _ => .error .malformed

/-- Reads a text as one JSON value. -/
def read (cs : List Char) : Except ReadError Value :=
  let scanned := scan cs
  match run initial scanned.1 with
  | .error e => .error e
  | .ok s => if scanned.2 then finish s else .error .malformed

end Json

end PayrollFormula
