import PayrollFormula.Proofs.Log.Queries

/-!
# Reading whatever is in a file

A file of a log may have anything in it. A line that is no JSON is skipped, but a line that is JSON
may be no record, and a line may end the reading altogether. `readLines_eq_ok_iff` says what is read
of lines, and `reads_records_iff` for which files that is what is wanted: the records among the
lines, and of these the ones that a query asks for.
-/

set_option autoImplicit false

namespace PayrollFormula

open Query

namespace Journal

variable {j : Journal}

/-! ## Lines -/

/-- Whether a line is no JSON, or JSON for a value with a property. -/
def Holds (P : Value → Prop) (cs : List Char) : Prop :=
  Json.read (strip cs) = .error .malformed ∨ ∃ v, Json.read (strip cs) = .ok v ∧ P v

/-- The record that a line is. -/
def recordOf? (cs : List Char) : Option Fields :=
  match Json.read (strip cs) with
  | .ok (.record fs) => some fs
  | _ => none

/-- The records among lines. -/
def records (lines : List (List Char)) : List Fields := lines.filterMap recordOf?

/-- The empty text is no JSON. -/
theorem read_nil : Json.read [] = .error .malformed := rfl

/-- A blank line is like one that is no JSON. -/
theorem readLines_cons (cs : List Char) (rest : List (List Char)) :
    readLines (cs :: rest) =
      match Json.read (strip cs) with
      | .ok v => (readLines rest).map (v :: ·)
      | .error .malformed => readLines rest
      | .error (.longInteger digits) => .error (.longInteger digits)
      | .error (.tooDeep isList) => .error (.tooDeep isList) := by
  rw [readLines]
  split_ifs with hblank
  · rw [List.isEmpty_iff.mp hblank, read_nil]
  · rfl

/-- Reading lines succeeds if each of them is no JSON or is a value, and gives these values. -/
theorem readLines_eq_ok_iff {lines : List (List Char)} {vs : List Value} :
    readLines lines = .ok vs ↔
      vs = lines.filterMap (fun cs => (Json.read (strip cs)).toOption) ∧
        ∀ cs ∈ lines, Holds (fun _ => True) cs := by
  induction lines generalizing vs with
  | nil => simp [readLines, eq_comm]
  | cons cs rest ih =>
    rw [readLines_cons, List.forall_mem_cons, List.filterMap_cons, Holds]
    cases hread : Json.read (strip cs) with
    | ok v =>
      cases hrest : readLines rest with
      | ok ws =>
        obtain ⟨hws, hall⟩ := ih.mp hrest
        rw [hws]
        simpa [Except.map, Except.toOption, eq_comm] using fun _ => hall
      | error e =>
        have hnot : ¬∀ cs ∈ rest, Holds (fun _ => True) cs := by
          intro hall
          rw [ih.mpr ⟨rfl, hall⟩] at hrest
          cases hrest
        simp [Except.map, hnot]
    | error e =>
      cases e with
      | malformed => simp [ih, Except.toOption]
      | longInteger | tooDeep => simp

/-- A property of what a line holds may be replaced by a weaker one. -/
theorem Holds.mono {P Q : Value → Prop} {cs : List Char} (h : Holds P cs)
    (hPQ : ∀ v, P v → Q v) : Holds Q cs := by
  obtain h | ⟨v, hv, hP⟩ := h
  · exact .inl h
  · exact .inr ⟨v, hv, hPQ v hP⟩

/-- What holds of all values that are read holds of the lines. -/
theorem holds_of_readLines {P : Value → Prop} {lines : List (List Char)} {vs : List Value}
    (h : readLines lines = .ok vs) (hvs : ∀ v ∈ vs, P v) : ∀ cs ∈ lines, Holds P cs := by
  obtain ⟨rfl, hall⟩ := readLines_eq_ok_iff.mp h
  intro cs hcs
  obtain hread | ⟨v, hread, -⟩ := hall cs hcs
  · exact .inl hread
  · refine .inr ⟨v, hread, hvs v (List.mem_filterMap.mpr ⟨cs, hcs, ?_⟩)⟩
    rw [hread]
    rfl

/-- Lines of which each is a record or no JSON are read as the records among them. -/
theorem readLines_records {lines : List (List Char)} (h : ∀ cs ∈ lines, Holds IsRecord cs) :
    readLines lines = .ok ((records lines).map .record) := by
  refine readLines_eq_ok_iff.mpr ⟨?_, fun cs hcs => (h cs hcs).mono fun _ _ => trivial⟩
  rw [records, List.map_filterMap]
  refine List.filterMap_congr fun cs hcs => ?_
  obtain hread | ⟨_, hread, fs, rfl⟩ := h cs hcs
  · rw [recordOf?, hread]
    rfl
  · rw [recordOf?, hread]
    rfl

/-- If every line is searchable or no JSON, the records among them are searchable. -/
theorem isSearchable_of_mem_records {lines : List (List Char)}
    (h : ∀ cs ∈ lines, Holds IsSearchable cs) :
    ∀ fs ∈ records lines, IsSearchable (.record fs) := by
  intro fs hfs
  obtain ⟨cs, hcs, hrecord⟩ := List.mem_filterMap.mp hfs
  unfold recordOf? at hrecord
  obtain hread | ⟨_, hread, gs, rfl, hcontext⟩ := h cs hcs
  · rw [hread] at hrecord
    cases hrecord
  · rw [hread] at hrecord
    cases hrecord
    exact ⟨fs, rfl, hcontext⟩

/-! ## Files -/

/-- The lines at the end of a file that reading looks at. -/
def tailLines (j : Journal) (f : LogFile) : List (List Char) :=
  match j.store.content? f with
  | some bytes => splitLines (Utf8.decode (tail j.tailBytes.toNat bytes))
  | none => []

/-- Whether a file can be opened, and the number of bytes to look at is one if there is a file. -/
def CanRead (j : Journal) (f : LogFile) : Prop :=
  j.store.obstacle? f = none ∧ (j.store.content? f = none ∨ 0 ≤ j.tailBytes)

/-- Reading a file gives values exactly if it can be read and they are read from its last lines. -/
theorem events_eq_ok_iff {f : LogFile} {vs : List Value} :
    j.events f = .ok vs ↔ j.CanRead f ∧ readLines (j.tailLines f) = .ok vs := by
  unfold events CanRead tailLines
  cases j.store.obstacle? f with
  | some error => cases error <;> simp
  | none =>
    cases j.store.content? f with
    | none => simp [readLines]
    | some bytes =>
      by_cases hn : j.tailBytes < 0
      · simp [hn, Int.not_le.mpr hn]
      · simp [hn, Int.not_lt.mp hn]

/-- All queries are answered with the records that they ask for exactly if the file for all events
can be read and each of its lines is a record that can be searched, or no JSON. -/
theorem query_records_iff (j : Journal) :
    (∀ q : Query, j.query q = .ok (q.wanted (records (j.tailLines .all)))) ↔
      j.CanRead .all ∧ ∀ cs ∈ j.tailLines .all, Holds IsSearchable cs := by
  constructor
  · intro h
    -- A query for a hash looks into the context of every event.
    have hquery := h ⟨none, none, some "hash", 0⟩
    rw [query] at hquery
    cases hevents : j.events .all with
    | error e =>
      rw [hevents] at hquery
      cases hquery
    | ok vs =>
      obtain ⟨hread, hlines⟩ := events_eq_ok_iff.mp hevents
      refine ⟨hread, holds_of_readLines hlines fun v hv => ?_⟩
      rw [hevents] at hquery
      replace hquery : (select (hashIs "hash") vs >>= fun found =>
          .ok (found.reverse.take (kept 0 found.length))) = .ok _ := hquery
      cases hfound : select (hashIs "hash") vs with
      | error e =>
        rw [hfound] at hquery
        cases hquery
      | ok found =>
        obtain ⟨b, hb⟩ := exists_of_select_eq_ok hfound v hv
        exact isSearchable_of_hashIs hb
  · rintro ⟨hread, hlines⟩ q
    have hrecords : ∀ cs ∈ j.tailLines .all, Holds IsRecord cs :=
      fun cs hcs => (hlines cs hcs).mono fun v hv => ⟨hv.choose, hv.choose_spec.1⟩
    have hevents := events_eq_ok_iff.mpr ⟨hread, readLines_records hrecords⟩
    rw [query, hevents]
    exact answer_records q (isSearchable_of_mem_records hlines)

/-- What is read of the file of a run are its records exactly if the file can be read and each of
its lines is a record or no JSON. -/
theorem events_records_iff (j : Journal) (f : LogFile) :
    j.events f = .ok ((records (j.tailLines f)).map .record) ↔
      j.CanRead f ∧ ∀ cs ∈ j.tailLines f, Holds IsRecord cs := by
  rw [events_eq_ok_iff]
  refine and_congr_right fun _ => ⟨fun h => ?_, readLines_records⟩
  refine holds_of_readLines h fun v hv => ?_
  obtain ⟨fs, -, rfl⟩ := List.mem_map.mp hv
  exact ⟨fs, rfl⟩

/-- Whatever is in the files of a journal: queries give the records that they ask for, and nothing
else, exactly if the file for all events can be read and each line at its end is no JSON or a record
whose context is a record. What is read for a run are its records, and nothing else, exactly if the
name of the run is refused, or its file can be read and each line at its end is no JSON or a
record. -/
theorem reads_records_iff (j : Journal) :
    ((∀ q : Query, j.query q = .ok (q.wanted (records (j.tailLines .all)))) ↔
      j.CanRead .all ∧ ∀ cs ∈ j.tailLines .all, Holds IsSearchable cs) ∧
    ∀ run : String,
      j.runEvents run = .ok (if LogFile.isRunName run then
          (records (j.tailLines (.run run))).map .record else []) ↔
        LogFile.isRunName run = false ∨
          j.CanRead (.run run) ∧ ∀ cs ∈ j.tailLines (.run run), Holds IsRecord cs := by
  refine ⟨query_records_iff j, fun run => ?_⟩
  cases hname : LogFile.isRunName run with
  | false => simp [runEvents, hname]
  | true =>
    rw [runEvents, hname, if_pos rfl, if_pos rfl, events_records_iff]
    simp

/-- A line that is JSON for a list is given as an event, and is the end of a query that looks at
fields. -/
theorem list_line_not_skipped :
    let j : Journal := ⟨⟨false, [(.all, [91, 49, 93, 10].toByteArray)]⟩, 4⟩
    j.tailLines .all = [['[', '1', ']']] ∧ records (j.tailLines .all) = [] ∧
      j.query .standard = .ok [.list [.int 1]] ∧
      j.query ⟨some "info", none, none, 200⟩ = .error .notRecord := ⟨rfl, rfl, rfl, rfl⟩

end Journal

end PayrollFormula
