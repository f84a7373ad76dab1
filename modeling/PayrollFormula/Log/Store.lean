import PayrollFormula.Text.Quoted

/-!
# Log files

A store holds the files of a log: one for all events, and one for every payroll run whose name can
be the name of a file. A file is a list of bytes that only grows. The file for all events can be
blocked, and then it has no content and cannot be written. The name of a run can be too long for
that of a file, and then there is no such file.
-/

set_option autoImplicit false

namespace PayrollFormula

/-- The files of a log. -/
inductive LogFile where
  | all
  | run (name : String)
deriving DecidableEq, Repr

namespace LogFile

/-- The place of a file below the directory of the log. -/
def path : LogFile → String
  | .all => "events.ndjson"
  | .run name => "runs/" ++ name ++ ".ndjson"

/-- Whether a character may stand in the name of a run. -/
def isRunChar (c : Char) : Bool := isNameChar c || c = '-'

/-- Whether a text is the name of a run: letters, digits, underscores and hyphens, of which there
is at least one. A line feed after them is let through. -/
def isRunName (name : String) : Bool :=
  match name.toList.reverse with
  | [] => false
  | c :: cs => (isRunChar c || (c = '\n' && !cs.isEmpty)) && cs.all isRunChar

/-- The greatest length of the name of a run that a file can have. -/
def maxRunLength : Nat := 248

/-- Whether there can be a file of this name. -/
def isNameable : LogFile → Bool
  | .all => true
  | .run name => name.length ≤ maxRunLength

end LogFile

/-- Why a file cannot be opened. -/
inductive FileError where
  | blocked (file : LogFile)
  | nameTooLong (file : LogFile)
deriving DecidableEq, Repr

/-- The wording of the error, for a log in a directory. -/
def FileError.message (directory : String) : FileError → String
  | .blocked file => "[Errno 21] Is a directory: " ++ quoted (directory ++ "/" ++ file.path)
  | .nameTooLong file => "[Errno 36] File name too long: " ++ quoted (directory ++ "/" ++ file.path)

/-- The files of a log with their contents. -/
structure Store where
  blocked : Bool
  files : List (LogFile × ByteArray)

namespace Store

/-- A store without files. -/
def empty : Store := ⟨false, []⟩

/-- The content of a file, if there is one. -/
def content? (s : Store) (f : LogFile) : Option (List UInt8) :=
  (s.files.lookup f).map (·.data.toList)

/-- Adds bytes at the end of a file among others. A file that does not exist is created. -/
def appendTo (f : LogFile) (bytes : ByteArray) :
    List (LogFile × ByteArray) → List (LogFile × ByteArray)
  | [] => [(f, bytes)]
  | (g, old) :: rest =>
    if g = f then (g, old ++ bytes) :: rest else (g, old) :: appendTo f bytes rest

/-- Adds bytes at the end of a file. -/
def append (s : Store) (f : LogFile) (bytes : List UInt8) : Store :=
  { s with files := appendTo f bytes.toByteArray s.files }

/-- Why a file of the store cannot be written, if it cannot. -/
def obstacle? (s : Store) (f : LogFile) : Option FileError :=
  if f = .all ∧ s.blocked then some (.blocked f)
  else if f.isNameable then none
  else some (.nameTooLong f)

/-- Adds bytes at the end of a file that can be written. -/
def extend (s : Store) (f : LogFile) (bytes : List UInt8) : Except FileError Store :=
  match s.obstacle? f with
  | some e => .error e
  | none => .ok (s.append f bytes)

/-- Blocks the file for all events; what was in it is lost. -/
def block (s : Store) : Store := ⟨true, s.files.filter (·.1 ≠ .all)⟩

/-- Ends the blocking of the file for all events. -/
def unblock (s : Store) : Store := { s with blocked := false }

/-- Looking for a file among files of which the first is known. -/
theorem lookup_cons (f g : LogFile) (bytes : ByteArray) (files : List (LogFile × ByteArray)) :
    ((f, bytes) :: files).lookup g = if g = f then some bytes else files.lookup g := by
  rw [List.lookup_cons]
  by_cases h : g = f
  · simp [h]
  · rw [beq_eq_false_iff_ne.2 h, if_neg h]

/-- Adding bytes to a file among others changes what is found under its name, and nothing else. -/
theorem lookup_appendTo (f g : LogFile) (bytes : ByteArray) (files : List (LogFile × ByteArray)) :
    (appendTo f bytes files).lookup g =
      if g = f then some ((files.lookup f).getD .empty ++ bytes) else files.lookup g := by
  induction files with
  | nil => rw [appendTo, lookup_cons]; simp
  | cons entry rest ih =>
    obtain ⟨k, old⟩ := entry
    rw [appendTo]
    by_cases hk : k = f
    · by_cases hg : g = f <;> simp [lookup_cons, hk, hg]
    · rw [if_neg hk, lookup_cons, lookup_cons, lookup_cons, ih, if_neg (Ne.symm hk)]
      by_cases hg : g = k
      · simp [hg, hk]
      · rw [if_neg hg, if_neg hg]

/-- Adding bytes to a file leaves the other files as they are. -/
theorem content?_append (s : Store) (f g : LogFile) (bytes : List UInt8) :
    (s.append f bytes).content? g =
      if g = f then some ((s.content? f).getD [] ++ bytes) else s.content? g := by
  by_cases h : g = f
  · cases hf : s.files.lookup f <;> simp [append, content?, lookup_appendTo, h, hf]
  · simp [append, content?, lookup_appendTo, h]

end Store

end PayrollFormula
