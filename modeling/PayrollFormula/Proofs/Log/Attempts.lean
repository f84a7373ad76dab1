import PayrollFormula.Proofs.Log.ReadBack
import PayrollFormula.Proofs.Log.RunNames

/-!
# Writing that may fail

A file for all events that cannot be written now may be writable later, so an attempt at writing
says for itself whether it can (`Attempt`). Whatever attempts are made, the file of a run has those
lines of the file for all events that were written for it (`attempts_write_lines`). The runs that
get a file are those with a plain name, and those with a plain name and a line feed after it
(`files_plain_iff`).
-/

set_option autoImplicit false

namespace PayrollFormula

namespace Journal

/-! ## Attempts -/

/-- An attempt at writing: a step, and whether the file for all events can be written then. -/
structure Attempt where
  step : Step
  works : Bool

/-- Whether an attempt writes its event. -/
def Attempt.succeeds (a : Attempt) : Bool := a.works && (unwritable? a.step.logged).isNone

/-- The journal when the file for all events can be written, or cannot. -/
def when (j : Journal) (works : Bool) : Journal :=
  { j with store := { j.store with blocked := !works } }

/-- The journal after an attempt. -/
def attempt (j : Journal) (a : Attempt) : Journal := (j.when a.works).apply a.step

/-- The journal after several attempts. -/
def attemptAll (j : Journal) (attempts : List Attempt) : Journal := attempts.foldl attempt j

/-- The events that attempts write to a file. -/
def succeeded (f : LogFile) (attempts : List Attempt) : List Event :=
  (attempts.filter fun a => a.succeeds && goesTo a.step.run? f).map fun a => a.step.logged

/-- An attempt that succeeds adds the line of its event to the files that the event goes to, and one
that fails changes no file. -/
theorem content?_attempt (j : Journal) (a : Attempt) (f : LogFile) :
    (j.attempt a).store.content? f =
      if a.succeeds && goesTo a.step.run? f then some (j.bytes f ++ lineBytes a.step.logged)
      else j.store.content? f := by
  have hwritten : (j.when a.works).isWritten a.step.logged = a.succeeds := by
    rw [isWritten, Attempt.succeeds, when, Bool.not_not]
  rw [attempt, apply_eq_write, content?_write, hwritten]
  rfl

/-- An attempt adds the bytes of what it writes. -/
theorem bytes_attempt (j : Journal) (a : Attempt) (f : LogFile) :
    (j.attempt a).bytes f = j.bytes f ++ (succeeded f [a]).flatMap lineBytes := by
  rw [bytes, content?_attempt]
  cases h : a.succeeds && goesTo a.step.run? f <;> simp [succeeded, h, bytes]

/-- What attempts add to a file are the lines of the events that they write to it, in order. -/
theorem bytes_attemptAll (j : Journal) (attempts : List Attempt) (f : LogFile) :
    (j.attemptAll attempts).bytes f = j.bytes f ++ (succeeded f attempts).flatMap lineBytes := by
  induction attempts generalizing j with
  | nil => simp [attemptAll, succeeded]
  | cons a attempts ih =>
    have hcons : succeeded f (a :: attempts) = succeeded f [a] ++ succeeded f attempts := by
      rw [succeeded, ← List.singleton_append, List.filter_append, List.map_append]
      rfl
    have hrest := ih (j.attempt a)
    rw [attemptAll, List.foldl_cons]
    rw [attemptAll] at hrest
    rw [hrest, bytes_attempt, hcons, List.flatMap_append, List.append_assoc]

/-- The file of a run gets the events that are written for it, if there can be such a file. -/
theorem succeeded_run (attempts : List Attempt) {name : String}
    (hname : LogFile.isRunName name = true) (hlength : name.length ≤ LogFile.maxRunLength) :
    succeeded (.run name) attempts =
      ((attempts.filter Attempt.succeeds).filter fun a => a.step.run? = some name).map
        fun a => a.step.logged := by
  rw [List.filter_filter, succeeded]
  refine congrArg (List.map _) (List.filter_congr fun a _ => ?_)
  rw [goesTo_run hname hlength, Bool.and_comm]

/-- The file for all events gets the event of every attempt that succeeds. -/
theorem succeeded_all (attempts : List Attempt) :
    succeeded .all attempts =
      (attempts.filter Attempt.succeeds).map fun a => a.step.logged := by
  refine congrArg (List.map _) (List.filter_congr fun a _ => ?_)
  simp [goesTo]

/-- An event that gets written for a run that can have a file adds its line to the file for all
events and to that of the run, and nothing goes wrong. -/
theorem exists_write_of_isWritten {j : Journal} {e : Event} {run : Option String}
    (h : j.isWritten e = true)
    (hrun : ∀ name, run = some name → name.length ≤ LogFile.maxRunLength) :
    ∃ store, j.write e run = ({ j with store }, none) ∧
      ∀ f, store.content? f =
        if f = .all ∨ runFile? run = some f then some (j.bytes f ++ lineBytes e)
        else j.store.content? f := by
  have hnameable : ∀ f, runFile? run = some f → f.isNameable = true := by
    intro f hf
    unfold runFile? at hf
    cases run with
    | none => cases hf
    | some name =>
      simp only [Option.ite_none_right_eq_some, Option.some.injEq] at hf
      obtain ⟨-, rfl⟩ := hf
      exact decide_eq_true (hrun name rfl)
  refine ⟨(j.write e run).1.store, ?_, fun f => ?_⟩
  · rw [write_of_isWritten h]
    cases hfile : runFile? run with
    | none => rfl
    | some f => simp only [if_pos (hnameable f hfile)]
  · have hgoes : goesTo run f = decide (f = .all ∨ runFile? run = some f) := by
      by_cases hf : runFile? run = some f
      · simp [goesTo, hf, hnameable f hf]
      · simp [goesTo, hf]
    rw [content?_write, h, Bool.true_and, hgoes]
    simp only [decide_eq_true_eq]

/-- Writing an event adds one line, which has no line end but the line feed at its end, or changes
nothing. If the file for all events can be written and the event has a line at all, the line is
added to that file and to the file of the run, if the run can have one, and no other file changes.
Otherwise the journal stays as it is: writing fails and reporting goes on. So whatever attempts
are made on a fresh journal, the lines of its file for all events are those of the attempts that
succeed, in order, and the lines of a run's file are those of them that were made for the run. -/
theorem attempts_write_lines :
    (∀ (j : Journal) (e : Event) (run : Option String),
      (∀ name, run = some name → name.length ≤ LogFile.maxRunLength) →
        (j.store.blocked = false → unwritable? e = none →
          (∀ c ∈ body e, isLineEnd c = false) ∧
          ∃ store, j.write e run = ({ j with store }, none) ∧
            ∀ f, store.content? f =
              if f = .all ∨ runFile? run = some f then
                some (j.bytes f ++ Utf8.encode (String.ofList (body e ++ ['\n'])))
              else j.store.content? f) ∧
        (j.store.blocked = true ∨ unwritable? e ≠ none →
          ∃ error, j.write e run = (j, some error)) ∧
        (j.store.blocked = true ∨ unwritable? e.prepared ≠ none → j.emit e run = j)) ∧
    ∀ (n : ℤ) (attempts : List Attempt),
      let done := attempts.filter Attempt.succeeds
      let log := (attemptAll ⟨.empty, n⟩ attempts).bytes
      log .all = done.flatMap (fun a => lineBytes a.step.logged) ∧
        splitLines (Utf8.decode (log .all)) = done.map (fun a => body a.step.logged) ∧
        ∀ name, LogFile.isRunName name = true → name.length ≤ LogFile.maxRunLength →
          log (.run name) = (done.filter fun a => a.step.run? = some name).flatMap
            fun a => lineBytes a.step.logged := by
  constructor
  · intro j e run hrun
    have hnot {e : Event} (h : j.store.blocked = true ∨ unwritable? e ≠ none) :
        j.isWritten e = false := by
      rcases h with h | h
      · simp [isWritten, h]
      · simp [isWritten, Option.isSome_iff_ne_none.mpr h]
    refine ⟨fun hworks he => ?_, fun h => exists_write_of_not_isWritten (hnot h) run, fun h => ?_⟩
    · have hwritten : j.isWritten e = true := by simp [isWritten, hworks, he]
      exact ⟨fun c hc => isLineEnd_of_mem_body hc, exists_write_of_isWritten hwritten hrun⟩
    · obtain ⟨error, hwrite⟩ := exists_write_of_not_isWritten (hnot h) run
      rw [emit, hwrite]
  · intro n attempts done log
    have hlog (f : LogFile) : log f = (succeeded f attempts).flatMap lineBytes :=
      bytes_attemptAll ⟨.empty, n⟩ attempts f
    refine ⟨?_, ?_, ?_⟩
    · rw [hlog, succeeded_all, List.flatMap_map]
    · rw [hlog, splitLines_decode, succeeded_all, List.map_map]
      rfl
    · intro name hname hlength
      rw [hlog, succeeded_run attempts hname hlength, List.flatMap_map]

/-- One event that is written for a run, one that cannot be written then, and one for no run. -/
theorem attempts_write_lines_of_run :
    let e : Event := .report "t" .parsed .info "é\n" [] none
    let attempts : List Attempt :=
      [⟨.write e (some "r"), true⟩, ⟨.emit e (some "r"), false⟩, ⟨.write e none, true⟩]
    (∃ store, write ⟨.empty, 0⟩ e (some "r") = (⟨store, 0⟩, none) ∧
      store.content? (.run "r") = some (lineBytes e)) ∧
    (∃ error, write ⟨⟨true, []⟩, 0⟩ e (some "r") = (⟨⟨true, []⟩, 0⟩, some error)) ∧
    (attemptAll ⟨.empty, 0⟩ attempts).bytes .all = lineBytes e ++ lineBytes e ∧
    (attemptAll ⟨.empty, 0⟩ attempts).bytes (.run "r") = lineBytes e := by
  intro e attempts
  have he : unwritable? e = none := by decide +kernel
  have hlength : ∀ name, some "r" = some name → name.length ≤ LogFile.maxRunLength := by
    rintro name ⟨⟩
    decide
  have hdone : attempts.filter Attempt.succeeds =
      [⟨.write e (some "r"), true⟩, ⟨.write e none, true⟩] := by
    simp [attempts, Attempt.succeeds, Step.logged, he]
  obtain ⟨hone, hmany⟩ := attempts_write_lines
  obtain ⟨-, store, hwrite, hcontent⟩ := (hone ⟨.empty, 0⟩ e (some "r") hlength).1 rfl he
  obtain ⟨hall, -, hrun⟩ := hmany 0 attempts
  rw [hdone] at hall hrun
  refine ⟨⟨store, hwrite, ?_⟩, (hone ⟨⟨true, []⟩, 0⟩ e _ hlength).2.1 (.inl rfl), ?_, ?_⟩
  · have hfile : runFile? (some "r") = some (.run "r") := by decide
    rw [hcontent, if_pos (.inr hfile)]
    rfl
  · rw [hall]
    simp [Step.logged]
  · rw [hrun "r" (by decide) (by decide)]
    simp [Step.logged, Step.run?]

/-- An event with an integer of too many digits or with too many levels has no line, and leaves no
trace although the files can be written. -/
theorem unwritable_events_leave_no_trace :
    let long : Event := .report "t" .parsed .info "" [("n", .int (10 ^ 4300))] none
    let deep : Event :=
      .report "t" .parsed .info "" [("a", Nat.repeat (fun v => .list [v]) 255 (.int 1))] none
    let j : Journal := ⟨.empty, 0⟩
    j.store.blocked = false ∧ j.write long none = (j, some .longInteger) ∧
      j.write deep none = (j, some .tooManyLevels) ∧ j.store.content? .all = none := by
  intro long deep j
  have hlong : unwritable? long = some .longInteger := by decide +kernel
  have hdeep : unwritable? deep = some .tooManyLevels := by decide +kernel
  exact ⟨rfl, write_of_unwritable hlong, write_of_unwritable hdeep, rfl⟩

/-! ## The files of runs -/

open LogFile

/-- After attempts, a file exists if it did before or one of them wrote to it. -/
theorem isSome_content?_attemptAll (j : Journal) (attempts : List Attempt) (f : LogFile) :
    ((j.attemptAll attempts).store.content? f).isSome =
      ((j.store.content? f).isSome ||
        attempts.any fun a => a.succeeds && goesTo a.step.run? f) := by
  induction attempts generalizing j with
  | nil => simp [attemptAll]
  | cons a attempts ih =>
    have hrest := ih (j.attempt a)
    rw [attemptAll] at hrest
    rw [attemptAll, List.foldl_cons, hrest, content?_attempt, List.any_cons, ← Bool.or_assoc]
    cases a.succeeds && goesTo a.step.run? f <;> simp

/-- Whether a run never gets a file, whatever is written for it, and nothing is ever read for it,
whatever the files are. -/
def Ignored (run : String) : Prop :=
  (∀ (j : Journal) (s : Step) (f : LogFile), s.run? = some run → f ≠ .all →
    (j.apply s).store.content? f = j.store.content? f) ∧
  ∀ j : Journal, j.runEvents run = .ok []

/-- The runs for which nothing is written or read are those that the check of names refuses. -/
theorem ignored_iff (run : String) : Ignored run ↔ isRunName run = false := by
  constructor
  · rintro ⟨-, hread⟩
    by_contra hname
    rw [Bool.not_eq_false] at hname
    -- A journal that cannot read any file fails at the file of the run.
    have hevents := hread ⟨⟨false, [(.run run, .empty)]⟩, -1⟩
    rw [runEvents, if_pos hname, events] at hevents
    by_cases hlength : isNameable (.run run) = true
    · simp [Store.obstacle?, Store.content?, hlength] at hevents
    · simp [Store.obstacle?, hlength] at hevents
  · intro hname
    refine ⟨fun j s f hs hf => ?_, fun j => by simp [runEvents, hname]⟩
    have hgoes : goesTo s.run? f = false := by
      rw [Bool.eq_false_iff, ne_eq, goesTo_iff, hs]
      rintro (h | ⟨name, ⟨⟩, -, h, -⟩)
      · exact hf h
      · rw [hname] at h
        cases h
    rw [apply_eq_write, content?_write, hgoes, Bool.and_false]
    rfl

/-- Whatever is attempted on a fresh journal, every file is the one for all events or that of a run
with a plain name, unless an event is written for a plain name with a line feed after it, and that
is not too long. Nothing is written to another file or read for the other runs, except those. -/
theorem files_plain_iff (n : ℤ) (attempts : List Attempt) (run : String) :
    ((∀ f, ((attemptAll ⟨.empty, n⟩ attempts).store.content? f).isSome = true → HasPlainPath f) ↔
      ∀ a ∈ attempts, a.succeeds = true → ∀ name, a.step.run? = some name → IsFedName name →
        maxRunLength < name.length) ∧
    (Ignored run ↔ ¬IsPlainName run ∧ ¬IsFedName run) := by
  have hfile (f : LogFile) : ((attemptAll ⟨.empty, n⟩ attempts).store.content? f).isSome = true ↔
      ∃ a ∈ attempts, a.succeeds = true ∧ goesTo a.step.run? f = true := by
    rw [isSome_content?_attemptAll]
    simp [Store.content?, Store.empty]
  refine ⟨⟨fun hplain a ha hsucceeds name hrun hfed => ?_, fun hnames f hcontent => ?_⟩, ?_⟩
  · by_contra hlength
    have hgoes : goesTo a.step.run? (.run name) = true :=
      goesTo_iff.mpr (.inr ⟨name, hrun, rfl, (isRunName_iff name).mpr (.inr hfed),
        not_lt.mp hlength⟩)
    have hpath := hplain _ ((hfile _).mpr ⟨a, ha, hsucceeds, hgoes⟩)
    exact not_isPlainName_of_fed hfed (hasPlainPath_run.mp hpath)
  · obtain ⟨a, ha, hsucceeds, hgoes⟩ := (hfile f).mp hcontent
    obtain rfl | ⟨name, hrun, rfl, hname, hlength⟩ := goesTo_iff.mp hgoes
    · exact .inl rfl
    · rcases (isRunName_iff name).mp hname with h | h
      · exact hasPlainPath_run.mpr h
      · exact absurd (hnames a ha hsucceeds name hrun h) (not_lt.mpr hlength)
  · rw [ignored_iff, Bool.eq_false_iff, ne_eq, isRunName_iff, not_or]

/-- A run whose name ends with a line feed gets a file of that name, and is not ignored by
reading. -/
theorem fed_name_gets_file :
    let e : Event := .report "t" .parsed .info "" [] none
    let j : Journal := attempt ⟨.empty, 0⟩ ⟨.write e (some "r\n"), true⟩
    j.store.content? (.run "r\n") = some (lineBytes e) ∧ ¬HasPlainPath (.run "r\n") ∧
      ¬IsPlainName "r\n" ∧ ¬Ignored "r\n" := by
  intro e j
  have he : unwritable? e = none := by decide +kernel
  have hgoes : goesTo (some "r\n") (.run "r\n") = true := by decide
  have hplain : ¬IsPlainName "r\n" := by
    intro h
    exact absurd (h.chars '\n' (by decide)) (by decide)
  refine ⟨?_, fun h => hplain (hasPlainPath_run.mp h), hplain, ?_⟩
  · have hsucceeds : Attempt.succeeds ⟨.write e (some "r\n"), true⟩ = true := by
      simp [Attempt.succeeds, Step.logged, he]
    have hempty : (⟨.empty, 0⟩ : Journal).bytes (.run "r\n") = [] := rfl
    rw [content?_attempt, hsucceeds, Step.run?, hgoes, hempty, List.nil_append, Bool.and_self,
      if_pos rfl, Step.logged]
  · rw [ignored_iff]
    decide

end Journal

end PayrollFormula
