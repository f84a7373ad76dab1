import PayrollFormula.Number.Integer
import PayrollFormula.Value

/-!
# Reading documents

A document is a value, and a reader of it expects fields of certain types. Reading does not stop
at the first failure: the paths of all places that fail are collected in the order in which the
reader looks at them. A reader that succeeds has met no failing place.
-/

set_option autoImplicit false

namespace PayrollFormula

/-- A place in a document: field names and list indices from the outside in. -/
abbrev Path : Type := List String

/-- What is read from a document, or the places that fail. -/
inductive Reading (α : Type) where
  | ok (a : α)
  | failed (paths : List Path)
deriving Repr

namespace Reading

variable {α β : Type}

/-- A failure at the place that is read. -/
def fail : Reading α := .failed [[]]

/-- The places that fail. -/
def failures : Reading α → List Path
  | .ok _ => []
  | .failed paths => paths

/-- Applies a function to what is read. -/
def map (f : α → β) : Reading α → Reading β
  | .ok a => .ok (f a)
  | .failed paths => .failed paths

/-- Reads two things and collects the failures of both. -/
def combine (f : Reading (α → β)) (x : Reading α) : Reading β :=
  match f, x with
  | .ok f, .ok a => .ok (f a)
  | f, x => .failed (f.failures ++ x.failures)

instance : Functor Reading where
  map := map

instance : Applicative Reading where
  pure := .ok
  seq f x := combine f (x ())

/-- Puts the places that fail under a name. -/
def under (name : String) : Reading α → Reading α
  | .ok a => .ok a
  | .failed paths => .failed (paths.map (name :: ·))

/-- A reading from a result that may be missing. -/
def ofOption : Option α → Reading α
  | some a => .ok a
  | none => .fail

/-- Reads the elements of a list, the first of which has index `i`. -/
def elements (read : Value → Reading α) (i : Nat) : List Value → Reading (List α)
  | [] => .ok []
  | v :: vs => combine (map List.cons ((read v).under (toString i))) (elements read (i + 1) vs)

/-- Reads the values of a record under their names. -/
def entries (read : Value → Reading α) : Fields → Reading (List (String × α))
  | [] => .ok []
  | (name, v) :: rest =>
    combine (map (fun a => List.cons (name, a)) ((read v).under name)) (entries read rest)

end Reading

namespace Value

/-- Reads a text. -/
def readText : Value → Reading String
  | .text s => .ok s
  | _ => .fail

/-- Reads a text with a property. -/
def readTextWith (p : String → Bool) : Value → Reading String
  | .text s => if p s then .ok s else .fail
  | _ => .fail

/-- Reads a number, which may be written as a text or as a truth value. -/
def readDouble : Value → Reading Double
  | .double x => .ok x
  | .int i => .ofOption (Double.ofInt i).toOption
  | .bool b => .ok (.ofBool b)
  | .text s => .ofOption (Double.readField? s)
  | _ => .fail

/-- Reads an integer, which may be written in any way that stands for one. -/
def readInteger : Value → Reading Int
  | .int i => .ok i
  | .bool b => .ok (if b then 1 else 0)
  | .double x => .ofOption (Integer.ofDouble? x)
  | .decimal d => .ofOption (Integer.ofDecimal? d)
  | .fraction q => .ofOption (Integer.ofRat? q)
  | .text s => .ofOption (Integer.read? s)
  | _ => .fail

/-- Reads a list. -/
def readList {α : Type} (read : Value → Reading α) : Value → Reading (List α)
  | .list vs => .elements read 0 vs
  | _ => .fail

/-- Reads a record whose values are all of one type. -/
def readEntries {α : Type} (read : Value → Reading α) : Value → Reading (List (String × α))
  | .record fields => .entries read fields
  | _ => .fail

/-- Reads a record. -/
def readRecord {α : Type} (read : Fields → Reading α) : Value → Reading α
  | .record fields => read fields
  | _ => .fail

/-- Reads a value that may be absent. -/
def readOptional {α : Type} (read : Value → Reading α) : Value → Reading (Option α)
  | .null => .ok none
  | v => (read v).map some

end Value

namespace Fields

/-- Reads a field that has to be there. -/
def required {α : Type} (fields : Fields) (name : String) (read : Value → Reading α) : Reading α :=
  match fields.get? name with
  | some v => (read v).under name
  | none => .failed [[name]]

/-- Reads a field for which there is a default. -/
def optional {α : Type} (fields : Fields) (name : String) (default : α)
    (read : Value → Reading α) : Reading α :=
  match fields.get? name with
  | some v => (read v).under name
  | none => .ok default

end Fields

end PayrollFormula
