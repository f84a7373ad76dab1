import Mathlib.Data.List.Basic
import Mathlib.Tactic.Tauto
import PayrollFormula.Log.Store

/-!
# The names of runs

The name of a run becomes the name of a file, so it has to be plain (`LogFile.IsPlainName`). The
check of names lets one other sort of names through, a plain one with a line feed after it
(`LogFile.isRunName_iff`), and the path of a run's file is as it should be only if the name is
plain (`LogFile.hasPlainPath_run`).
-/

set_option autoImplicit false

namespace PayrollFormula

namespace LogFile

/-- Whether a text has only ASCII letters, digits, underscores and hyphens, and at least one. -/
structure IsPlainName (name : String) : Prop where
  ne_empty : name ≠ ""
  chars : ∀ c ∈ name.toList, isRunChar c = true

/-- Whether a text is a plain name with a line feed after it. -/
def IsFedName (name : String) : Prop := ∃ plain, IsPlainName plain ∧ name = plain ++ "\n"

/-- Whether a file is the one for all events or that of a run with a plain name. -/
def HasPlainPath (f : LogFile) : Prop :=
  f.path = "events.ndjson" ∨ ∃ name, IsPlainName name ∧ f.path = "runs/" ++ name ++ ".ndjson"

/-- A line feed is no character of a plain name. -/
theorem isRunChar_newline : isRunChar '\n' = false := by decide

/-- A name that ends with a line feed is not plain. -/
theorem not_isPlainName_of_fed {name : String} (h : IsFedName name) : ¬IsPlainName name := by
  obtain ⟨plain, -, rfl⟩ := h
  intro hplain
  have hfeed := hplain.chars '\n' (by simp)
  rw [isRunChar_newline] at hfeed
  cases hfeed

/-- A name is plain exactly if its last character and those before it belong in plain names. -/
theorem isPlainName_iff_of_toList {name : String} {cs : List Char} {c : Char}
    (hname : name.toList = cs ++ [c]) :
    IsPlainName name ↔ isRunChar c = true ∧ ∀ b ∈ cs, isRunChar b = true := by
  constructor
  · intro h
    have hchars := h.chars
    rw [hname] at hchars
    exact ⟨hchars c (by simp), fun b hb => hchars b (by simp [hb])⟩
  · rintro ⟨hc, hcs⟩
    constructor
    · rintro rfl
      simp at hname
    · rw [hname]
      simpa [or_imp, forall_and] using ⟨hcs, hc⟩

/-- A name is a plain one with a line feed after it exactly if that is its last character and those
before it belong in plain names. -/
theorem isFedName_iff_of_toList {name : String} {cs : List Char} {c : Char}
    (hname : name.toList = cs ++ [c]) :
    IsFedName name ↔ c = '\n' ∧ cs ≠ [] ∧ ∀ b ∈ cs, isRunChar b = true := by
  constructor
  · rintro ⟨plain, hplain, rfl⟩
    rw [String.toList_append] at hname
    obtain ⟨hcs, hc⟩ := List.append_inj' hname rfl
    cases hc
    subst hcs
    refine ⟨rfl, ?_, hplain.chars⟩
    intro hnil
    exact hplain.ne_empty (String.toList_eq_nil_iff.mp hnil)
  · rintro ⟨rfl, hne, hcs⟩
    refine ⟨String.ofList cs, ⟨?_, ?_⟩, ?_⟩
    · intro hempty
      apply hne
      rw [← String.toList_ofList (l := cs), hempty]
      rfl
    · rwa [String.toList_ofList]
    · apply String.toList_inj.mp
      rw [hname, String.toList_append, String.toList_ofList]
      rfl

/-- The check of names lets plain names through, and plain names with a line feed after them. -/
theorem isRunName_iff (name : String) :
    isRunName name = true ↔ IsPlainName name ∨ IsFedName name := by
  rcases List.eq_nil_or_concat name.toList with hnil | ⟨cs, c, hname⟩
  · have hempty : name = "" := String.toList_eq_nil_iff.mp hnil
    subst hempty
    refine iff_of_false (by decide) ?_
    rintro (h | ⟨plain, -, h⟩)
    · exact h.ne_empty rfl
    · have hlist := congrArg String.toList h
      simp at hlist
  · rw [List.concat_eq_append] at hname
    rw [isPlainName_iff_of_toList hname, isFedName_iff_of_toList hname, isRunName, hname]
    simp only [List.reverse_append, List.reverse_singleton, List.singleton_append,
      Bool.and_eq_true, Bool.or_eq_true, decide_eq_true_eq, List.isEmpty_reverse, List.all_reverse,
      List.all_eq_true, Bool.not_eq_true', List.isEmpty_eq_false_iff]
    tauto

/-- The file of a run has a plain path exactly if the run has a plain name. -/
theorem hasPlainPath_run {name : String} : HasPlainPath (.run name) ↔ IsPlainName name := by
  constructor
  · rintro (h | ⟨plain, hplain, h⟩)
    · have hlist := congrArg String.toList h
      simp [path] at hlist
    · have hlist := congrArg String.toList h
      simp only [path, String.toList_append, List.append_cancel_left_eq,
        List.append_cancel_right_eq] at hlist
      rwa [String.toList_inj.mp hlist]
  · exact fun h => .inr ⟨name, h, rfl⟩

end LogFile

end PayrollFormula
