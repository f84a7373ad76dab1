import Mathlib.Data.List.DropRight
import Mathlib.Data.List.Infix
import PayrollFormula.Proofs.Log.ReadBack

/-!
# Whole lines in the part that is read

Only so many bytes at the end of a file are read, and an event whose line is whole in them should be
given by what reads the file. It is, with all later events, unless its line starts with the first of
these bytes: the rest of the line that this byte is in is left out, and here that is the whole line
(`IsTail.isSuffix_iff`). So events from one on are all given exactly if their lines do not fill the
part that is read, or the file (`applyAll_gives_whole_lines_iff`).
-/

set_option autoImplicit false

namespace PayrollFormula

namespace Journal

variable {e : Event} {es before after log segment : List Event} {n : ℕ}

/-! ## Where the part that is read starts -/

/-- There are no bytes only if there are no events. -/
theorem size_eq_zero_iff : size es = 0 ↔ es = [] := by
  constructor
  · intro h
    cases es with
    | nil => rfl
    | cons e es =>
      obtain ⟨bytes, hbytes, -⟩ := exists_lineBytes e
      rw [size_cons, hbytes, List.length_append, List.length_singleton] at h
      omega
  · rintro rfl
    rfl

/-- Of the events whose lines are whole in the part that is read, those are read that start after
its first byte, or with the file. -/
theorem IsTail.isSuffix_iff (htail : IsTail n log segment)
    (hwritten : log = before ++ e :: after) (hwhole : size (e :: after) ≤ n) :
    e :: after <:+ segment ↔ (size (e :: after) = n → before = []) := by
  have hsize : size log = size before + size (e :: after) := by rw [hwritten, size_append]
  have hnone : size before = 0 ↔ before = [] := size_eq_zero_iff
  rcases Nat.lt_or_ge n (size log) with hcut | hall
  · rw [htail.start_iff hcut before e after hwritten, ← hnone]
    omega
  · apply iff_of_true
    · rw [htail.eq_of_le hall, hwritten]
      exact List.suffix_append before _
    · intro hfull
      apply hnone.mp
      omega

/-! ## What is read -/

/-- Whether values are what is read of the lines of events: each is the same as the image of its
event. -/
def Recalls (answer : List Value) (es : List Event) : Prop :=
  List.Forall₂ Value.Same answer (es.map fun e => Json.image e.value)

/-- As many values are read as there are events. -/
theorem Recalls.length_eq {answer : List Value} (h : Recalls answer es) :
    answer.length = es.length := by
  rw [List.Forall₂.length_eq h, List.length_map]

/-- An event as its line is read. -/
def recalled (e : Event) : Value := (Json.image e.value).arranged

/-- Events as their lines are read are what is read of them. -/
theorem recalls_map (hes : ∀ e ∈ es, e.value.Everywhere Value.HasDistinctNames) :
    Recalls (es.map recalled) es := by
  rw [Recalls, List.forall₂_map_left_iff, List.forall₂_map_right_iff, List.forall₂_same]
  intro e he
  exact Json.same_image (hes e he)

/-- An event whose context has distinct names has them when it is logged. -/
theorem Step.hasDistinctNames_logged (s : Step)
    (h : (Value.record s.event.context).Everywhere Value.HasDistinctNames) :
    s.logged.value.Everywhere Value.HasDistinctNames := by
  refine Event.everywhere_value (fun _ => trivial) (fun _ => trivial) trivial ?_ ?_
  · exact Event.nodup_names s.logged
  · cases s with
    | write e run => exact h
    | emit e run =>
      apply Event.everywhere_prepared (fun _ => trivial) (fun _ => trivial) _ h
      exact fun fs gs hnames hnodup => hnames hnodup

/-- Whether in the contexts of all events no name of a field occurs twice. -/
def HaveDistinctNames (steps : List Step) : Prop :=
  ∀ s ∈ steps, (Value.record s.event.context).Everywhere Value.HasDistinctNames

variable {steps : List Step} {f : LogFile}

/-- If the contexts have distinct names, so have the written events. -/
theorem hasDistinctNames_written (hnames : HaveDistinctNames steps) :
    ∀ e ∈ written f steps, e.value.Everywhere Value.HasDistinctNames := by
  intro e he
  obtain ⟨s, hs, rfl, -, -⟩ := exists_step_of_mem_written he
  exact s.hasDistinctNames_logged (hnames s hs)

/-- What steps have written to a file of a fresh journal is read back, a tail of the events. -/
theorem events_applyAll_recalled (hn : 1 ≤ n) (hnames : HaveDistinctNames steps)
    (hf : f.isNameable = true) :
    ∃ segment, IsTail n (written f steps) segment ∧
      (applyAll ⟨.empty, n⟩ steps).events f = .ok (segment.map recalled) := by
  apply events_applyAll_of_read hn hf
  intro e he
  obtain ⟨s, hs, rfl, hline, -⟩ := exists_step_of_mem_written he
  exact read_body_image (s.hasDistinctNames_logged (hnames s hs)) hline

/-- The file of a run that something is written to can be read. -/
theorem runEvents_of_mem_written {run : String} (he : e ∈ written (.run run) steps)
    (j : Journal) :
    (LogFile.run run).isNameable = true ∧ j.runEvents run = j.events (.run run) := by
  obtain ⟨s, -, -, -, hgoes⟩ := exists_step_of_mem_written he
  obtain hall | ⟨name, -, hfile, hname, hlength⟩ := goesTo_iff.mp hgoes
  · cases hall
  · cases hfile
    exact ⟨decide_eq_true hlength, if_pos hname⟩

/-! ## Events among those that are given -/

/-- Whether the last of some values are what is read of events. -/
def EndsWith (answer : List Value) (es : List Event) : Prop :=
  ∃ last, last <:+ answer ∧ Recalls last es

/-- What is read of a tail ends with some of the events exactly if the tail does. -/
theorem endsWith_map_iff (hes : es <:+ log) (hsegment : segment <:+ log)
    (hnames : ∀ e ∈ log, e.value.Everywhere Value.HasDistinctNames) :
    EndsWith (segment.map recalled) es ↔ es <:+ segment := by
  constructor
  · rintro ⟨last, hlast, hrecalls⟩
    apply List.suffix_of_suffix_length_le hes hsegment
    calc es.length = last.length := hrecalls.length_eq.symm
      _ ≤ (segment.map recalled).length := hlast.length_le
      _ = segment.length := List.length_map recalled
  · intro hsuffix
    refine ⟨es.map recalled, hsuffix.map recalled, recalls_map fun e he => ?_⟩
    exact hnames e (hes.subset he)

/-- Taking at least as many of the last values as there are events does not matter. -/
theorem endsWith_rtake_iff {answer : List Value} {k : ℕ} (hk : es.length ≤ k) :
    EndsWith (answer.rtake k) es ↔ EndsWith answer es := by
  have hsuffix : answer.rtake k <:+ answer := List.drop_suffix _ _
  constructor
  · rintro ⟨last, hlast, hrecalls⟩
    exact ⟨last, hlast.trans hsuffix, hrecalls⟩
  · rintro ⟨last, hlast, hrecalls⟩
    refine ⟨last, List.suffix_of_suffix_length_le hlast hsuffix ?_, hrecalls⟩
    have hle := hlast.length_le
    have hlength := hrecalls.length_eq
    rw [List.rtake, List.length_drop]
    omega

/-- An event whose line is whole in the part of a file that is read should be given by what reads
the file. Of a fresh journal that steps have written to, of whatever size the part is and whatever
is written, that holds of an event and all later ones exactly if their lines do not fill the part,
or no other line is before them. It holds of the events of a run, and of the newest of all events if
the limit leaves room for them. -/
theorem applyAll_gives_whole_lines_iff (n : ℕ) (hn : 1 ≤ n) (steps : List Step)
    (hnames : HaveDistinctNames steps) :
    (∀ run before e after, written (.run run) steps = before ++ e :: after →
      size (e :: after) ≤ n → ∃ answer,
        (applyAll ⟨.empty, n⟩ steps).runEvents run = .ok answer ∧
        (EndsWith answer (e :: after) ↔ (size (e :: after) = n → before = []))) ∧
    ∀ limit before e after, written .all steps = before ++ e :: after →
      size (e :: after) ≤ n → ((e :: after).length : ℤ) ≤ min limit Query.maxLimit → ∃ answer,
        (applyAll ⟨.empty, n⟩ steps).query ⟨none, none, none, limit⟩ = .ok answer ∧
        (EndsWith answer.reverse (e :: after) ↔ (size (e :: after) = n → before = [])) := by
  constructor
  · intro run before e after hwritten hwhole
    have he : e ∈ written (.run run) steps := by rw [hwritten]; simp
    obtain ⟨hf, hrun⟩ := runEvents_of_mem_written he (applyAll ⟨.empty, n⟩ steps)
    obtain ⟨segment, htail, hevents⟩ := events_applyAll_recalled hn hnames hf
    refine ⟨segment.map recalled, hrun.trans hevents, ?_⟩
    rw [← htail.isSuffix_iff hwritten hwhole]
    exact endsWith_map_iff ⟨before, hwritten.symm⟩ htail.isEnd (hasDistinctNames_written hnames)
  · intro limit before e after hwritten hwhole hlimit
    obtain ⟨segment, htail, hevents⟩ := events_applyAll_recalled hn hnames (f := .all) rfl
    obtain ⟨k, hk⟩ := Int.eq_ofNat_of_zero_le (show 0 ≤ min limit Query.maxLimit by omega)
    have hanswer : (applyAll ⟨.empty, n⟩ steps).query ⟨none, none, none, limit⟩ =
        .ok ((segment.map recalled).rtake k).reverse := by
      rw [query, hevents, List.rtake_eq_reverse_take_reverse, List.reverse_reverse]
      show Except.ok (List.take (Query.kept (min limit Query.maxLimit) _) _) = _
      rw [hk, Query.kept, if_pos (Int.natCast_nonneg k), Int.toNat_natCast]
    refine ⟨_, hanswer, ?_⟩
    rw [List.reverse_reverse, endsWith_rtake_iff (by omega), ← htail.isSuffix_iff hwritten hwhole]
    exact endsWith_map_iff ⟨before, hwritten.symm⟩ htail.isEnd (hasDistinctNames_written hnames)

/-! ## A line that fills the part that is read -/

/-- If the last line fills the part that is read, and is not the only one, nothing is read. -/
theorem events_of_full_line (hn : 1 ≤ n) (hnames : HaveDistinctNames steps)
    (hf : f.isNameable = true) (hwritten : written f steps = before ++ [e]) (hne : before ≠ [])
    (hfull : size [e] = n) : (applyAll ⟨.empty, n⟩ steps).events f = .ok [] := by
  obtain ⟨segment, htail, hevents⟩ := events_applyAll_recalled hn hnames hf
  have hout : ¬[e] <:+ segment := by
    rw [htail.isSuffix_iff hwritten hfull.le]
    exact fun h => hne (h hfull)
  have hnil : segment = [] := by
    apply List.eq_nil_of_length_eq_zero
    by_contra hpos
    exact hout (List.suffix_of_suffix_length_le ⟨before, hwritten.symm⟩ htail.isEnd
      (Nat.one_le_iff_ne_zero.mpr hpos))
  rw [hevents, hnil]
  rfl

/-- An event with no more than a message. -/
def note (message : String) : Event := .report "t" .parsed .info message [] none

/-- Two notes are written for a run. -/
def notes : List Step := [.write (note "m") (some "r"), .write (note "n") (some "r")]

/-- Notes have distinct names. -/
theorem haveDistinctNames_notes : HaveDistinctNames notes := by
  intro s hs
  rw [Value.everywhere_record]
  rcases List.mem_pair.mp hs with rfl | rfl <;> exact ⟨List.nodup_nil, List.forall_mem_nil _⟩

/-- Both notes are written to the files that they go to. -/
theorem written_notes (hgoes : goesTo (some "r") f = true) :
    written f notes = [note "m"] ++ [note "n"] := by
  have hline : unwritable? (note "m") = none ∧ unwritable? (note "n") = none := by decide +kernel
  simp [written, notes, Step.logged, Step.run?, hline.1, hline.2, hgoes]

/-- The second of two notes is given if one byte before its line is looked at. -/
theorem last_line_given :
    let n : ℕ := size [note "n"] + 1
    1 ≤ n ∧ HaveDistinctNames notes ∧
      (∃ answer, (applyAll ⟨.empty, n⟩ notes).runEvents "r" = .ok answer ∧
        EndsWith answer [note "n"]) ∧
      ∃ answer, (applyAll ⟨.empty, n⟩ notes).query .standard = .ok answer ∧
        EndsWith answer.reverse [note "n"] := by
  intro n
  have hn : 1 ≤ n := Nat.le_add_left 1 _
  have hwhole : size [note "n"] ≤ n := Nat.le_succ _
  have hless : size [note "n"] = n → [note "m"] = [] := fun h => absurd h (Nat.lt_succ_self _).ne
  obtain ⟨hruns, hqueries⟩ :=
    applyAll_gives_whole_lines_iff n hn notes haveDistinctNames_notes
  obtain ⟨answer, hanswer, hends⟩ :=
    hruns "r" _ _ _ (written_notes (by decide)) hwhole
  obtain ⟨answer', hanswer', hends'⟩ :=
    hqueries 200 _ _ _ (written_notes (by decide)) hwhole (by decide)
  exact ⟨hn, haveDistinctNames_notes, ⟨answer, hanswer, hends.mpr hless⟩, answer', hanswer',
    hends'.mpr hless⟩

/-- Neither of two notes is given if just the line of the second is looked at. -/
theorem full_line_not_given :
    let n : ℕ := size [note "n"]
    written (.run "r") notes = [note "m", note "n"] ∧ written .all notes = [note "m", note "n"] ∧
      (applyAll ⟨.empty, n⟩ notes).runEvents "r" = .ok [] ∧
      (applyAll ⟨.empty, n⟩ notes).query .standard = .ok [] := by
  intro n
  have hn : 1 ≤ n := Nat.one_le_iff_ne_zero.mpr (size_eq_zero_iff.not.mpr (List.cons_ne_nil _ _))
  have hne : [note "m"] ≠ [] := List.cons_ne_nil _ _
  have hnone {f : LogFile} (hf : f.isNameable = true) (hgoes : goesTo (some "r") f = true) :
      (applyAll ⟨.empty, n⟩ notes).events f = .ok [] :=
    events_of_full_line hn haveDistinctNames_notes hf (written_notes hgoes) hne rfl
  refine ⟨written_notes (by decide), written_notes (by decide), ?_, ?_⟩
  · exact (if_pos (by decide)).trans (hnone (by decide) (by decide))
  · rw [query, hnone rfl (by decide)]
    rfl

end Journal

end PayrollFormula
