import Mathlib.Data.List.Basic
import Mathlib.Data.List.Forall2
import PayrollFormula.Proofs.Log.Lines
import PayrollFormula.Proofs.Log.Queries
import PayrollFormula.Proofs.Log.Writing

/-!
# What is written to a log is read back

A fresh journal is written to step by step, and each step adds the line of its event to the files
that the event goes to, if it has a line (`grows_apply`, and by induction `grows_applyAll`). Reading
a file gives the events at its end, each the same as it was written, and a query picks those of them
that pass its filters, the newest first (`applyAll_reads_back`).
-/

set_option autoImplicit false

namespace PayrollFormula

/-! ## Plain events -/

namespace Event

/-- An event is written with seven fields. -/
theorem names_toFields (e : Event) : Fields.names e.toFields =
    ["schema_version", "ts", "level", "event_type", "context", "message", "error_code"] := rfl

/-- What holds everywhere in the context of an event holds everywhere in the event, if it holds of
the event itself and of whatever the other fields of an event can be. -/
theorem everywhere_value {P : Value → Prop} {e : Event} (hint : ∀ i, P (.int i))
    (htext : ∀ s, P (.text s)) (hnull : P .null) (hself : P e.value)
    (h : (Value.record e.context).Everywhere P) : e.value.Everywhere P := by
  have hatom {v : Value} (hv : v.isAtom = true) (hP : P v) : v.Everywhere P :=
    (Value.everywhere_atom hv).mpr hP
  have hcode : (optionalText e.errorCode).Everywhere P := by
    cases e.errorCode with
    | none => exact hatom rfl hnull
    | some s => exact hatom rfl (htext s)
  rw [value, Value.everywhere_record]
  refine ⟨hself, ?_⟩
  simp only [toFields, List.forall_mem_cons]
  exact ⟨hatom rfl (hint _), hatom rfl (htext _), hatom rfl (htext _), hatom rfl (htext _), h,
    hatom rfl (htext _), hcode, List.forall_mem_nil _⟩

/-- The names of an event's fields are distinct. -/
theorem nodup_names (e : Event) : (Fields.names e.toFields).Nodup := by
  rw [names_toFields]
  decide

/-- An event has a form in JSON exactly if its context has one. -/
theorem isPlain_iff (e : Event) :
    e.IsPlain ↔ (Value.record e.context).Everywhere Json.IsPlain := by
  constructor
  · intro h
    exact (Value.everywhere_record.mp h).2 ("context", _) (by simp [toFields])
  · exact everywhere_value (fun _ => trivial) (fun _ => trivial) trivial (nodup_names e)

/-- The fields of what is read of an event, in order. -/
def arrangedFields (e : Event) : Fields := e.toFields.sorted.map fun f => (f.1, f.2.arranged)

/-- Preparing an event puts nothing in it that JSON has no form for. -/
theorem isPlain_prepared {e : Event} (h : e.IsPlain) : e.prepared.IsPlain := by
  rw [isPlain_iff] at h ⊢
  refine everywhere_prepared (fun _ => trivial) (fun _ => trivial) ?_ h
  exact fun fs gs hnames hnodup => hnames hnodup

end Event

/-! ## Answers to queries -/

namespace Query

variable {e : Event} {es : List Event}

/-- Whether an event passes the filters of a query. -/
def accepts (q : Query) (e : Event) : Bool :=
  admits q.level (some e.level.name) && admits q.kind (some e.kind.name) &&
    admits q.hash ((e.context.get? Event.hashField).bind Value.text?)

/-- The order of fields does not matter to the text of one. -/
theorem textOf_arranged {fs : Fields} (hnodup : fs.names.Nodup) (name : String) :
    textOf (fs.sorted.map fun f => (f.1, f.2.arranged)) name =
      (fs.get? name).bind Value.text? := by
  rw [textOf, Value.get?_arranged hnodup]
  cases fs.get? name with
  | none => rfl
  | some v => cases v <;> rfl

/-- Whether an event has a hash is seen in what is read of it. -/
theorem hashOf_arranged (hplain : e.IsPlain) : hashOf e.arrangedFields =
    (e.context.get? Event.hashField).bind Value.text? := by
  have hnodup : (Fields.names e.toFields).Nodup := (Value.everywhere_record.mp hplain).1
  have hcontext : e.context.names.Nodup :=
    (Value.everywhere_record.mp ((Event.isPlain_iff e).mp hplain)).1
  have hget : Fields.get? e.toFields "context" = some (.record e.context) := rfl
  rw [hashOf, Event.arrangedFields, Value.get?_arranged hnodup, hget, Option.map_some,
    Value.arranged_record]
  exact textOf_arranged hcontext Event.hashField

/-- What is read of a plain event passes a query if the event does. -/
theorem passes_arranged (q : Query) (hplain : e.IsPlain) :
    q.passes e.arrangedFields = q.accepts e := by
  have hnodup : (Fields.names e.toFields).Nodup := (Value.everywhere_record.mp hplain).1
  rw [passes, accepts, hashOf_arranged hplain, Event.arrangedFields, textOf_arranged hnodup,
    textOf_arranged hnodup]
  rfl

/-- An event that is read back is searchable. -/
theorem isSearchable_arranged (hplain : e.IsPlain) : IsSearchable (.record e.arrangedFields) := by
  have hnodup : (Fields.names e.toFields).Nodup := (Value.everywhere_record.mp hplain).1
  refine ⟨_, rfl, fun c hc => ?_⟩
  have hget : Fields.get? e.toFields "context" = some (.record e.context) := rfl
  rw [Event.arrangedFields, Value.get?_arranged hnodup, hget, Option.map_some,
    Value.arranged_record] at hc
  cases hc
  exact ⟨_, rfl⟩

/-- A query of plain events gives those that pass its filters, the newest first. -/
theorem answer_map (q : Query) (hlimit : 0 ≤ q.limit) (hes : ∀ e ∈ es, e.IsPlain) :
    q.answer (es.map fun e => e.value.arranged) =
      .ok (((es.filter q.accepts).reverse.take (min q.limit maxLimit).toNat).map
        fun e => e.value.arranged) := by
  have hrecords (es : List Event) :
      es.map (fun e => e.value.arranged) = (es.map Event.arrangedFields).map .record := by
    rw [List.map_map]
    exact List.map_congr_left fun e _ => Value.arranged_record e.toFields
  have hsearchable : ∀ fs ∈ es.map Event.arrangedFields, IsSearchable (.record fs) := by
    intro fs hfs
    obtain ⟨e, he, rfl⟩ := List.mem_map.mp hfs
    exact isSearchable_arranged (hes e he)
  have hpasses : es.filter (q.passes ∘ Event.arrangedFields) = es.filter q.accepts :=
    List.filter_congr fun e he => passes_arranged q (hes e he)
  have hkept (length : ℕ) : kept (min q.limit maxLimit) length = (min q.limit maxLimit).toNat :=
    if_pos (Int.le_min.mpr ⟨hlimit, by decide⟩)
  rw [hrecords, answer_records q hsearchable, hrecords, wanted]
  simp only [List.filter_map, hpasses, hkept, List.map_take, List.map_reverse]

end Query

namespace Journal

/-! ## Steps -/

/-- What is done to a journal: an event is written as it is, or prepared and then written. -/
inductive Step where
  | write (e : Event) (run : Option String)
  | emit (e : Event) (run : Option String)

namespace Step

/-- The event as it is given. -/
def event : Step → Event
  | .write e _ => e
  | .emit e _ => e

/-- The event as it is written. -/
def logged : Step → Event
  | .write e _ => e
  | .emit e _ => e.prepared

/-- The run that the event is written for. -/
def run? : Step → Option String
  | .write _ run => run
  | .emit _ run => run

/-- An event that has a form in JSON has one when it is prepared. -/
theorem isPlain_logged (s : Step) (h : s.event.IsPlain) : s.logged.IsPlain := by
  cases s with
  | write e run => exact h
  | emit e run => exact Event.isPlain_prepared h

/-- An event that is not too deep and has no long integers has a line, whichever way it is
written. -/
theorem writable (s : Step) (hlevels : Json.fieldLevels s.event.context ≤ Json.maxLevels)
    (hshort : Json.hasLongInteger s.event.value = false) : unwritable? s.logged = none := by
  cases s with
  | write e run => exact Event.unwritable?_eq_none_iff.mpr ⟨hlevels, hshort⟩
  | emit e run => exact Event.writable_prepared hlevels hshort

end Step

/-- The journal after a step. -/
def apply (j : Journal) : Step → Journal
  | .write e run => (j.write e run).1
  | .emit e run => j.emit e run

/-- The journal after several steps. -/
def applyAll (j : Journal) (steps : List Step) : Journal := steps.foldl apply j

/-- The events that steps write to a file: those that have a line and go to the file. -/
def written (f : LogFile) (steps : List Step) : List Event :=
  (steps.filter fun s => (unwritable? s.logged).isNone && goesTo s.run? f).map Step.logged

variable {j : Journal}

/-- A step writes the event that it logs. -/
theorem apply_eq_write (j : Journal) (s : Step) : j.apply s = (j.write s.logged s.run?).1 := by
  cases s <;> rfl

/-- A step adds the line of its event to the files that it goes to, if it has a line. -/
theorem grows_apply (hworks : j.store.blocked = false) (s : Step) :
    Grows j (j.apply s) fun f => (written f [s]).flatMap lineBytes := by
  rw [apply_eq_write]
  cases he : unwritable? s.logged with
  | some error =>
    rw [write_of_unwritable he]
    simpa [written, he] using Grows.refl hworks
  | none =>
    have hgrows := grows_write hworks he s.run?
    refine ⟨hgrows.works, hgrows.tailBytes_eq, fun f => ?_⟩
    rw [hgrows.bytes_eq]
    cases hgoes : goesTo s.run? f <;> simp [written, he, hgoes]

/-- If nothing blocks the files, steps add the lines of the events that go to each file. -/
theorem grows_applyAll (hworks : j.store.blocked = false) (steps : List Step) :
    Grows j (j.applyAll steps) fun f => (written f steps).flatMap lineBytes := by
  induction steps generalizing j with
  | nil => exact Grows.refl hworks
  | cons s steps ih =>
    have hstep := grows_apply hworks s
    have hboth := hstep.trans (ih hstep.works)
    refine ⟨hboth.works, hboth.tailBytes_eq, fun f => (hboth.bytes_eq f).trans ?_⟩
    have hwritten : written f (s :: steps) = written f [s] ++ written f steps := by
      rw [written, ← List.singleton_append, List.filter_append, List.map_append]
      rfl
    rw [hwritten, List.flatMap_append]

/-! ## Reading -/

/-- Reading a file of a journal reads the lines at its end. -/
theorem events_eq (hworks : j.store.blocked = false) {n : ℕ} (hn : j.tailBytes = n) {f : LogFile}
    (hf : f.isNameable = true) :
    j.events f = readLines (splitLines (Utf8.decode (tail n (j.bytes f)))) := by
  have hobstacle : j.store.obstacle? f = none := by simp [Store.obstacle?, hworks, hf]
  have hpos : ¬j.tailBytes < 0 := by omega
  rw [events, hobstacle, bytes, hn]
  cases j.store.content? f with
  | none => rfl
  | some bytes =>
    rw [hn] at hpos
    simp only [hpos, if_false, Int.toNat_natCast]
    rfl

/-- A written event is one that a step logs, that has a line and that goes to the file. -/
theorem exists_step_of_mem_written {f : LogFile} {steps : List Step} {e : Event}
    (h : e ∈ written f steps) :
    ∃ s ∈ steps, s.logged = e ∧ unwritable? e = none ∧ goesTo s.run? f = true := by
  obtain ⟨s, hs, rfl⟩ := List.mem_map.mp h
  obtain ⟨hmem, hline⟩ := List.mem_filter.mp hs
  simp only [Bool.and_eq_true, Option.isNone_iff_eq_none] at hline
  exact ⟨s, hmem, rfl, hline⟩

/-- What steps have written to a file of a fresh journal is read back: a tail of the events, each
as what its line is read as. -/
theorem events_applyAll_of_read {n : ℕ} (hn : 1 ≤ n) {steps : List Step} {f : LogFile}
    (hf : f.isNameable = true) {g : Event → Value}
    (hread : ∀ e ∈ written f steps, Json.read (body e) = .ok (g e)) :
    ∃ segment, IsTail n (written f steps) segment ∧
      (applyAll ⟨.empty, n⟩ steps).events f = .ok (segment.map g) := by
  have hgrows := grows_applyAll (j := ⟨.empty, n⟩) rfl steps
  obtain ⟨segment, hsegment, htail⟩ := exists_tail hn (written f steps)
  have hbytes : (applyAll ⟨.empty, n⟩ steps).bytes f = (written f steps).flatMap lineBytes :=
    hgrows.bytes_eq f
  refine ⟨segment, hsegment, ?_⟩
  rw [events_eq hgrows.works hgrows.tailBytes_eq hf, hbytes, htail]
  exact readLines_lines fun e he => hread e (hsegment.isEnd.subset he)

/-- Plain events are read back with their fields in order. -/
theorem events_applyAll {n : ℕ} (hn : 1 ≤ n) {steps : List Step}
    (hplain : ∀ s ∈ steps, s.logged.IsPlain) {f : LogFile} (hf : f.isNameable = true) :
    ∃ segment, IsTail n (written f steps) segment ∧ (∀ e ∈ segment, e.IsPlain) ∧
      (applyAll ⟨.empty, n⟩ steps).events f = .ok (segment.map fun e => e.value.arranged) := by
  have hlines : ∀ e ∈ written f steps, e.IsPlain ∧ unwritable? e = none := by
    intro e he
    obtain ⟨s, hs, rfl, hline, -⟩ := exists_step_of_mem_written he
    exact ⟨hplain s hs, hline⟩
  obtain ⟨segment, hsegment, hevents⟩ :=
    events_applyAll_of_read hn hf fun e he => read_body (hlines e he).1 (hlines e he).2
  exact ⟨segment, hsegment, fun e he => (hlines e (hsegment.isEnd.subset he)).1, hevents⟩

/-- Events are read back the same but for the order of fields. -/
theorem same_of_isPlain {es : List Event} (hes : ∀ e ∈ es, e.IsPlain) :
    List.Forall₂ Value.Same (es.map fun e => e.value.arranged) (es.map Event.value) := by
  rw [List.forall₂_map_left_iff, List.forall₂_map_right_iff, List.forall₂_same]
  intro e he
  exact Json.same_arranged_of_isPlain (hes e he)

/-- What is written to a log is what is read back. All events are written that are not too deep and
have no long integers. Of the events that some steps have written to the file for all events of a
fresh journal, a query gives the newest of a tail that pass its filters, newest first and no more
than its limit; of those written to the file of a run, all of a tail are given, oldest first. Each
is the same as it was written. -/
theorem applyAll_reads_back (n : ℕ) (hn : 1 ≤ n) (steps : List Step)
    (hplain : ∀ s ∈ steps, s.event.IsPlain) :
    (∀ s ∈ steps, Json.fieldLevels s.event.context ≤ Json.maxLevels →
      Json.hasLongInteger s.event.value = false → unwritable? s.logged = none) ∧
    (∃ segment, IsTail n (written .all steps) segment ∧
      ∀ q : Query, 0 ≤ q.limit → ∃ answer,
        (applyAll ⟨.empty, n⟩ steps).query q = .ok answer ∧
        List.Forall₂ Value.Same answer (((segment.filter q.accepts).reverse.take
          (min q.limit Query.maxLimit).toNat).map Event.value)) ∧
    ∀ run : String, LogFile.isRunName run = true → run.length ≤ LogFile.maxRunLength →
      ∃ segment, IsTail n (written (.run run) steps) segment ∧ ∃ answer,
        (applyAll ⟨.empty, n⟩ steps).runEvents run = .ok answer ∧
        List.Forall₂ Value.Same answer (segment.map Event.value) := by
  have hlogged : ∀ s ∈ steps, s.logged.IsPlain := fun s hs => s.isPlain_logged (hplain s hs)
  refine ⟨fun s _ => s.writable, ?_, ?_⟩
  · obtain ⟨segment, hsegment, hes, hevents⟩ := events_applyAll hn hlogged (f := .all) rfl
    refine ⟨segment, hsegment, fun q hlimit => ?_⟩
    have hanswer : (applyAll ⟨.empty, n⟩ steps).query q = .ok
        (((segment.filter q.accepts).reverse.take (min q.limit Query.maxLimit).toNat).map
          fun e => e.value.arranged) := by
      rw [query, hevents]
      exact Query.answer_map q hlimit hes
    refine ⟨_, hanswer, same_of_isPlain fun e he => hes e ?_⟩
    exact List.mem_of_mem_filter (List.mem_reverse.mp (List.mem_of_mem_take he))
  · intro run hname hlength
    obtain ⟨segment, hsegment, hes, hevents⟩ :=
      events_applyAll hn hlogged (f := .run run) (decide_eq_true hlength)
    exact ⟨segment, hsegment, _, by rw [runEvents, if_pos hname, hevents], same_of_isPlain hes⟩

/-- Two events, of which the second is prepared, are read back from a log of which enough bytes are
looked at. -/
theorem write_emit_reads_back :
    let first : Event := .report "t" .parsed .info "é" [("b", .int 1), ("a", .text "\n")] none
    let second : Event := .report "t" .executed .info "" [("salary", .int 1)] none
    let steps : List Step := [.write first none, .emit second (some "r")]
    let n : ℕ := size (written .all steps) + 1
    (∃ answer, (applyAll ⟨.empty, n⟩ steps).query .standard = .ok answer ∧
      List.Forall₂ Value.Same answer [second.prepared.value, first.value]) ∧
    ∃ answer, (applyAll ⟨.empty, n⟩ steps).runEvents "r" = .ok answer ∧
      List.Forall₂ Value.Same answer [second.prepared.value] := by
  intro first second steps n
  have hint : (Value.int 1).Everywhere Json.IsPlain := (Value.everywhere_atom rfl).mpr trivial
  have htext : (Value.text "\n").Everywhere Json.IsPlain := (Value.everywhere_atom rfl).mpr trivial
  have hplain : ∀ s ∈ steps, s.event.IsPlain := by
    intro s hs
    rw [Event.isPlain_iff, Value.everywhere_record]
    rcases List.mem_pair.mp hs with rfl | rfl <;>
      simp [first, second, Step.event, Event.report, Json.IsPlain, Fields.names, hint, htext]
  have hall : written .all steps = [first, second.prepared] := by
    rw [written, List.filter_eq_self.mpr (by decide +kernel)]
    rfl
  have hrun : written (.run "r") steps = [second.prepared] := by
    rw [written, List.filter_cons_of_neg (by decide +kernel),
      List.filter_cons_of_pos (by decide +kernel)]
    rfl
  obtain ⟨-, ⟨segment, hsegment, hquery⟩, hruns⟩ :=
    applyAll_reads_back n (Nat.le_add_left 1 _) steps hplain
  obtain ⟨answer, hanswer, hsame⟩ := hquery .standard (by decide)
  obtain ⟨segment', hsegment', answer', hanswer', hsame'⟩ := hruns "r" (by decide) (by decide)
  have hsize : size (written .all steps) ≤ n := Nat.le_succ _
  have hsize' : size (written (.run "r") steps) ≤ n := by
    rw [hall, size_cons] at hsize
    rw [hrun]
    omega
  rw [hsegment.eq_of_le hsize, hall] at hsame
  rw [hsegment'.eq_of_le hsize', hrun] at hsame'
  exact ⟨⟨answer, hanswer, hsame⟩, answer', hanswer', hsame'⟩

end Journal

end PayrollFormula
