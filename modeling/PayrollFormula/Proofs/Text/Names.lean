import Mathlib.Data.List.Basic
import PayrollFormula.Text.Names
import PayrollFormula.Text.UpperCase

/-!
# Names and their upper case

`IsIdentifier` says which texts name something in a formula. All of their characters are ASCII, so
upper case is taken letter by letter, and the upper case of such a text names something again
(`isIdentifier_upperCase`) and is its own upper case (`upperCase_upperCase`).
-/

set_option autoImplicit false

namespace PayrollFormula

/-- Whether a text is one of the words that are operators, in any letter case. -/
def isKeyword (cs : List Char) : Bool :=
  cs.map lowerLetter = ['a', 'n', 'd'] || cs.map lowerLetter = ['o', 'r'] ||
    cs.map lowerLetter = ['n', 'o', 't']

/-- Whether a text names something: it has the form of a name and is no operator. -/
def IsIdentifier (cs : List Char) : Prop := isName cs = true ∧ isKeyword cs = false

/-! ## The characters of names -/

/-- What holds of the characters up to 127 holds of every ASCII character. -/
theorem forall_ascii {P : Char → Prop} (h : ∀ n < 128, P (Char.ofNat n)) {c : Char}
    (hc : c.toNat < 128) : P c := by
  have hP := h c.toNat hc
  rwa [Char.ofNat_toNat] at hP

/-- The characters of names are ASCII. -/
theorem toNat_lt_of_isNameChar {c : Char} (h : isNameChar c = true) : c.toNat < 128 := by
  simp only [isNameChar, isNameStart, isDigit, Char.le_def, UInt32.le_iff_toNat_le,
    Bool.or_eq_true, Bool.and_eq_true, decide_eq_true_eq] at h
  unfold Char.toNat
  rcases h with ((⟨-, h⟩ | ⟨-, h⟩) | rfl) | ⟨-, h⟩
  · exact Nat.lt_of_le_of_lt h (by decide)
  · exact Nat.lt_of_le_of_lt h (by decide)
  · decide
  · exact Nat.lt_of_le_of_lt h (by decide)

/-- The characters of names are those of words. -/
theorem isWordChar_of_isNameChar {c : Char} (h : isNameChar c = true) : isWordChar c = true := by
  unfold isWordChar
  rw [if_pos (toNat_lt_of_isNameChar h), h]

/-- A character that continues words but not names is no ASCII character. -/
theorem wide_of_isWordChar {c : Char} (h : isWordChar c = true) (hname : isNameChar c = false) :
    128 ≤ c.toNat := by
  unfold isWordChar at h
  split_ifs at h with hc
  · rw [hname] at h
    cases h
  · omega

set_option maxRecDepth 2000 in
/-- There are ten digits. -/
theorem mem_of_isDigit {d : Char} (h : isDigit d = true) :
    d ∈ ['0', '1', '2', '3', '4', '5', '6', '7', '8', '9'] := by
  have hascii : d.toNat < 128 := toNat_lt_of_isNameChar (by simp [isNameChar, h])
  revert h
  exact forall_ascii (P := fun d => isDigit d = true →
    d ∈ ['0', '1', '2', '3', '4', '5', '6', '7', '8', '9']) (by decide) hascii

/-- What a test says of each of the ten digits it says of every digit. -/
theorem eq_true_of_isDigit {p : Char → Bool}
    (h : ['0', '1', '2', '3', '4', '5', '6', '7', '8', '9'].all p = true) {c : Char}
    (hc : isDigit c = true) : p c = true :=
  List.all_eq_true.mp h c (mem_of_isDigit hc)

/-- No name starts with a digit. -/
theorem isNameStart_eq_false_of_isDigit {c : Char} (h : isDigit c = true) :
    isNameStart c = false := by
  simpa using eq_true_of_isDigit (p := fun d => !isNameStart d) (by decide) h

/-- A name starts with a letter or an underscore, and goes on with characters of names. -/
theorem isName_cons {c : Char} {cs : List Char} :
    isName (c :: cs) = true ↔ isNameStart c = true ∧ ∀ d ∈ cs, isNameChar d = true := by
  simp [isName]

/-- Every character of a name belongs in names. -/
theorem isNameChar_of_mem {cs : List Char} (h : isName cs = true) {c : Char} (hc : c ∈ cs) :
    isNameChar c = true := by
  cases cs with
  | nil => cases hc
  | cons d cs =>
    obtain ⟨hd, hcs⟩ := isName_cons.mp h
    rcases List.mem_cons.mp hc with rfl | hc
    · simp [isNameChar, hd]
    · exact hcs c hc

/-! ## Upper case -/

/-- An ASCII letter in upper case; every other character stays. -/
def upperLetter (c : Char) : Char :=
  if 'a' ≤ c ∧ c ≤ 'z' then Char.ofNat (c.toNat - 32) else c

set_option maxRecDepth 2000 in
/-- Upper case changes neither the class nor the lower case of an ASCII character. -/
theorem upperLetter_ascii {c : Char} (hc : c.toNat < 128) :
    isNameStart (upperLetter c) = isNameStart c ∧ isNameChar (upperLetter c) = isNameChar c ∧
      lowerLetter (upperLetter c) = lowerLetter c ∧ upperLetter (upperLetter c) = upperLetter c :=
  forall_ascii (P := fun c => isNameStart (upperLetter c) = isNameStart c ∧
    isNameChar (upperLetter c) = isNameChar c ∧ lowerLetter (upperLetter c) = lowerLetter c ∧
      upperLetter (upperLetter c) = upperLetter c) (by decide) hc

/-- A name in upper case has its letters in upper case. -/
theorem toList_upperCase {name : String} (h : isName name.toList = true) :
    (upperCase name).toList = name.toList.map upperLetter := by
  have hchar (c : Char) (hc : c ∈ name.toList) : upperChar c = [upperLetter c] := by
    unfold upperChar
    rw [if_pos (toNat_lt_of_isNameChar (isNameChar_of_mem h hc))]
    rfl
  rw [upperCase, String.toList_ofList, List.flatMap_congr hchar, ← List.map_eq_flatMap]

/-- The upper case of a name is a name that is spelled the same in lower case. -/
theorem isName_map_upperLetter {cs : List Char} (h : isName cs = true) :
    isName (cs.map upperLetter) = true ∧
      (cs.map upperLetter).map lowerLetter = cs.map lowerLetter ∧
      (cs.map upperLetter).map upperLetter = cs.map upperLetter := by
  have hascii (c : Char) (hc : c ∈ cs) := upperLetter_ascii
    (toNat_lt_of_isNameChar (isNameChar_of_mem h hc))
  refine ⟨?_, ?_, ?_⟩
  · cases cs with
    | nil => exact h
    | cons c cs =>
      obtain ⟨hc, hcs⟩ := isName_cons.mp h
      rw [List.map_cons, isName_cons]
      refine ⟨by rw [(hascii c List.mem_cons_self).1, hc], fun d hd => ?_⟩
      obtain ⟨b, hb, rfl⟩ := List.mem_map.mp hd
      rw [(hascii b (List.mem_cons_of_mem c hb)).2.1, hcs b hb]
  · rw [List.map_map]
    exact List.map_congr_left fun c hc => (hascii c hc).2.2.1
  · rw [List.map_map]
    exact List.map_congr_left fun c hc => (hascii c hc).2.2.2

/-- An identifier in upper case is one. -/
theorem isIdentifier_upperCase {name : String} (h : IsIdentifier name.toList) :
    IsIdentifier (upperCase name).toList := by
  obtain ⟨hname, hword⟩ := h
  obtain ⟨hupper, hlower, -⟩ := isName_map_upperLetter hname
  rw [toList_upperCase hname]
  refine ⟨hupper, ?_⟩
  unfold isKeyword at hword ⊢
  rwa [hlower]

/-- Upper case is taken once and for all. -/
theorem upperCase_upperCase {name : String} (h : IsIdentifier name.toList) :
    upperCase (upperCase name) = upperCase name := by
  have hupper := toList_upperCase (isIdentifier_upperCase h).1
  rw [toList_upperCase h.1, (isName_map_upperLetter h.1).2.2, ← toList_upperCase h.1] at hupper
  exact String.toList_inj.mp hupper

/-! ## Names in order -/

/-- Sorted texts are in order. -/
theorem pairwise_sortTexts (names : List String) :
    (sortTexts names).Pairwise fun a b => decide (a ≤ b) = true := by
  refine List.pairwise_mergeSort ?_ ?_ names
  · intro a b c hab hbc
    exact decide_eq_true (String.le_trans (of_decide_eq_true hab) (of_decide_eq_true hbc))
  · intro a b
    simpa using String.le_total a b

/-- Sorted texts are the same texts. -/
theorem perm_sortTexts (names : List String) : (sortTexts names).Perm names :=
  List.mergeSort_perm names _

/-- There is one way to put names in order. -/
theorem eq_sortTexts_of_perm {ss names : List String} (h : ss.Perm names)
    (hsorted : ss.Pairwise fun a b => decide (a ≤ b) = true) : ss = sortTexts names := by
  refine List.Perm.eq_of_pairwise ?_ hsorted (pairwise_sortTexts names) ?_
  · intro a b _ _ hab hba
    exact String.le_antisymm (of_decide_eq_true hab) (of_decide_eq_true hba)
  · exact h.trans (perm_sortTexts names).symm

/-- The order of names does not depend on the order in which they are given. -/
theorem sortTexts_eq_of_perm {names names' : List String} (h : names.Perm names') :
    sortTexts names = sortTexts names' :=
  eq_sortTexts_of_perm ((perm_sortTexts names).trans h) (pairwise_sortTexts names)

/-- Leaving out names keeps the order of the others. -/
theorem filter_sortTexts (p : String → Bool) (names : List String) :
    (sortTexts names).filter p = sortTexts (names.filter p) :=
  eq_sortTexts_of_perm ((perm_sortTexts names).filter p) ((pairwise_sortTexts names).filter p)

end PayrollFormula
