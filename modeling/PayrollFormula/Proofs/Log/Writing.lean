import Mathlib.Data.List.Basic
import PayrollFormula.Log.Journal

/-!
# What is written

What writing an event does to the files of a journal, whatever state they are in: its line is added
to the file for all events and to the file of its run, if there can be one, or no file changes at
all (`content?_write`). So a journal whose file for all events can be written only ever grows.
`Journal.Grows` says by which bytes each file has grown between two states of a journal
(`grows_write`).
-/

set_option autoImplicit false

namespace PayrollFormula

namespace Journal

variable {j j' j'' : Journal} {e : Event} {run : Option String}

/-! ## Files -/

/-- The bytes of a file; there are none if there is no such file. -/
def bytes (j : Journal) (f : LogFile) : List UInt8 := (j.store.content? f).getD []

/-- Whether what is written for a run goes to a file. -/
def goesTo (run : Option String) (f : LogFile) : Bool :=
  f = .all || (runFile? run = some f && f.isNameable)

/-- What is written for a run goes to the file for all events, and to a file of the run if there can
be one. -/
theorem goesTo_iff {f : LogFile} : goesTo run f = true ↔
    f = .all ∨ ∃ name, run = some name ∧ f = .run name ∧ LogFile.isRunName name = true ∧
      name.length ≤ LogFile.maxRunLength := by
  unfold goesTo runFile?
  cases run with
  | none => simp
  | some name =>
    cases hname : LogFile.isRunName name with
    | false => simp [hname]
    | true =>
      simp only [hname, if_true, Bool.or_eq_true, decide_eq_true_eq, Bool.and_eq_true,
        Option.some.injEq]
      constructor
      · rintro (h | ⟨rfl, h⟩)
        · exact .inl h
        · exact .inr ⟨name, rfl, rfl, hname, of_decide_eq_true h⟩
      · rintro (h | ⟨_, rfl, rfl, -, h⟩)
        · exact .inl h
        · exact .inr ⟨rfl, decide_eq_true h⟩

/-- The file of a run takes what is written for that run, and nothing else. -/
theorem goesTo_run {name : String} (hname : LogFile.isRunName name = true)
    (hlength : name.length ≤ LogFile.maxRunLength) (run : Option String) :
    goesTo run (.run name) = decide (run = some name) := by
  rw [Bool.eq_iff_iff, goesTo_iff, decide_eq_true_iff]
  simp [hname, hlength]

/-- The file of a run is not the one for all events. -/
theorem runFile?_ne_all (run : Option String) : runFile? run ≠ some .all := by
  unfold runFile?
  cases run with
  | none => simp
  | some name =>
    simp only [ne_eq]
    split <;> simp

/-! ## One event -/

/-- Whether an event gets written: it has a line, and the file for all events can be written. -/
def isWritten (j : Journal) (e : Event) : Bool := !j.store.blocked && (unwritable? e).isNone

/-- An event without a line is refused and changes nothing. -/
theorem write_of_unwritable {error : WriteError} (he : unwritable? e = some error) :
    j.write e run = (j, some error) := by
  rw [write, he]

/-- If the file for all events is blocked, writing fails and changes nothing. -/
theorem write_of_blocked (hblocked : j.store.blocked = true) (he : unwritable? e = none) :
    j.write e run = (j, some (.file (.blocked .all))) := by
  have hobstacle : j.store.obstacle? .all = some (.blocked .all) := by
    simp [Store.obstacle?, hblocked]
  simp only [write, he, Store.extend, hobstacle]

/-- An event that does not get written leaves the journal as it is. -/
theorem exists_write_of_not_isWritten (h : j.isWritten e = false) (run : Option String) :
    ∃ error, j.write e run = (j, some error) := by
  cases he : unwritable? e with
  | some error => exact ⟨error, write_of_unwritable he⟩
  | none =>
    have hblocked : j.store.blocked = true := by simpa [isWritten, he] using h
    exact ⟨_, write_of_blocked hblocked he⟩

/-- If nothing blocks the files, bytes are added to one whose name a path may have. -/
theorem extend_of_nameable {s : Store} (h : s.blocked = false) {f : LogFile}
    (hf : f.isNameable = true) (bytes : List UInt8) : s.extend f bytes = .ok (s.append f bytes) := by
  have hobstacle : s.obstacle? f = none := by simp [Store.obstacle?, h, hf]
  rw [Store.extend, hobstacle]

/-- The journal after its event has got written: the line is added to one file or to two. -/
theorem write_of_isWritten (h : j.isWritten e = true) :
    let s := j.store.append .all (lineBytes e)
    j.write e run =
      match runFile? run with
      | none => ({ j with store := s }, none)
      | some f =>
        if f.isNameable then ({ j with store := s.append f (lineBytes e) }, none)
        else ({ j with store := s }, some (.file (.nameTooLong f))) := by
  intro s
  simp only [isWritten, Bool.and_eq_true, Bool.not_eq_true', Option.isNone_iff_eq_none] at h
  obtain ⟨hworks, he⟩ := h
  have hall : j.store.extend .all (lineBytes e) = .ok s := extend_of_nameable hworks rfl _
  have hworks' : s.blocked = false := hworks
  unfold write
  simp only [he, hall]
  cases runFile? run with
  | none => rfl
  | some f =>
    by_cases hf : f.isNameable = true
    · simp only [extend_of_nameable hworks' hf, if_pos hf]
    · have hobstacle : s.obstacle? f = some (.nameTooLong f) := by
        simp [Store.obstacle?, hworks', hf]
      simp only [Store.extend, hobstacle, if_neg hf]

/-- Adding bytes to a file changes this file only. -/
theorem content?_append_eq (s : Store) (f g : LogFile) (added : List UInt8) :
    (s.append f added).content? g =
      if g = f then some ((s.content? g).getD [] ++ added) else s.content? g := by
  rw [Store.content?_append]
  split_ifs with h
  · rw [h]
  · rfl

/-- An event that gets written adds its line to the files that it goes to. No other file is
touched, and none at all by an event that does not get written. -/
theorem content?_write (j : Journal) (e : Event) (run : Option String) (f : LogFile) :
    (j.write e run).1.store.content? f =
      if j.isWritten e && goesTo run f then some (j.bytes f ++ lineBytes e)
      else j.store.content? f := by
  cases h : j.isWritten e with
  | false =>
    obtain ⟨error, hwrite⟩ := exists_write_of_not_isWritten h run
    rw [hwrite]
    rfl
  | true =>
    rw [write_of_isWritten h, Bool.true_and, goesTo, bytes]
    have hne := runFile?_ne_all run
    cases hrun : runFile? run with
    | none => simp [content?_append_eq]
    | some g =>
      rw [hrun] at hne
      have hg : g ≠ .all := fun hg => hne (congrArg some hg)
      by_cases hname : g.isNameable = true
      · by_cases hf : f = g
        · simp [content?_append_eq, hname, hf, hg]
        · simp [content?_append_eq, hname, hf, Ne.symm hf]
      · by_cases hf : f = g
        · simp [content?_append_eq, hname, hf, hg]
        · simp [content?_append_eq, hname, Ne.symm hf]

/-! ## Growing -/

/-- Whether the second journal is the first with bytes added to its files, and can be written. -/
structure Grows (j j' : Journal) (added : LogFile → List UInt8) : Prop where
  works : j'.store.blocked = false
  tailBytes_eq : j'.tailBytes = j.tailBytes
  bytes_eq : ∀ f, j'.bytes f = j.bytes f ++ added f

/-- A journal that can be written is itself with nothing added. -/
theorem Grows.refl (h : j.store.blocked = false) : Grows j j fun _ => [] :=
  ⟨h, rfl, fun _ => (List.append_nil _).symm⟩

/-- What is added first stands before what is added next. -/
theorem Grows.trans {a b : LogFile → List UInt8} (h : Grows j j' a) (h' : Grows j' j'' b) :
    Grows j j'' fun f => a f ++ b f where
  works := h'.works
  tailBytes_eq := h'.tailBytes_eq.trans h.tailBytes_eq
  bytes_eq := by
    intro f
    rw [h'.bytes_eq, h.bytes_eq, List.append_assoc]

/-- Writing changes neither what is blocked nor how many bytes are read. -/
theorem frame_write (h : j.isWritten e = true) (run : Option String) :
    (j.write e run).1.store.blocked = j.store.blocked ∧
      (j.write e run).1.tailBytes = j.tailBytes := by
  rw [write_of_isWritten h]
  cases runFile? run with
  | none => exact ⟨rfl, rfl⟩
  | some f =>
    simp only
    split <;> exact ⟨rfl, rfl⟩

/-- An event that has a line adds it to the file for all events and to the file of its run. -/
theorem grows_write (h : j.store.blocked = false) (he : unwritable? e = none)
    (run : Option String) :
    Grows j (j.write e run).1 fun f => if goesTo run f then lineBytes e else [] := by
  have hwritten : j.isWritten e = true := by simp [isWritten, h, he]
  obtain ⟨hblocked, htail⟩ := frame_write hwritten run
  refine ⟨hblocked.trans h, htail, fun f => ?_⟩
  rw [bytes, content?_write, hwritten, Bool.true_and]
  cases goesTo run f <;> simp [bytes]

end Journal

end PayrollFormula
