import Mathlib.Data.List.Nodup
import PayrollFormula.Text.Names

/-!
# First occurrences

`firstOccurrences` keeps what a list holds and where it is first found: it has the same elements,
each of them once (`nodup_firstOccurrences`), and a search through it ends at the same element as a
search through the list itself (`find?_firstOccurrences`). It is what is collected when the elements
are added one by one unless they are there (`foldl_appendNew`), and the only list with the same
elements in the order in which they are first found (`listsFirst_iff`).
-/

set_option autoImplicit false

namespace PayrollFormula

variable {α : Type} [DecidableEq α]

/-- The first occurrences are those of all members of the list. -/
@[simp] theorem mem_firstOccurrences {a : α} {as : List α} :
    a ∈ firstOccurrences as ↔ a ∈ as := by
  induction as with
  | nil => simp [firstOccurrences]
  | cons b as ih =>
    simp only [firstOccurrences, List.mem_cons, List.mem_filter, ih, decide_eq_true_eq]
    by_cases h : a = b
    · simp [h]
    · simp [h]

/-- First occurrences are distinct. -/
theorem nodup_firstOccurrences (as : List α) : (firstOccurrences as).Nodup := by
  induction as with
  | nil => exact List.nodup_nil
  | cons b as ih =>
    refine List.nodup_cons.mpr ⟨?_, ih.filter _⟩
    intro hb
    simp at hb

/-- Elements may be left out before or after repetitions are. -/
theorem firstOccurrences_filter (p : α → Bool) (as : List α) :
    firstOccurrences (as.filter p) = (firstOccurrences as).filter p := by
  induction as with
  | nil => rfl
  | cons b as ih =>
    rw [firstOccurrences, List.filter_cons, List.filter_cons]
    cases hb : p b with
    | true =>
      rw [if_pos rfl, if_pos rfl, firstOccurrences, ih, List.filter_filter, List.filter_filter]
      simp only [Bool.and_comm]
    | false =>
      -- Leaving out `b` first makes no difference, since it is left out in any case.
      have hand (a : α) : (p a && decide (a ≠ b)) = p a := by
        by_cases h : a = b
        · simp [h, hb]
        · simp [h]
      rw [if_neg Bool.false_ne_true, if_neg Bool.false_ne_true, ih, List.filter_filter, funext hand]

/-- The first element of a list that has a property is also the first among those that stand in the
list for the first time. -/
theorem find?_firstOccurrences (p : α → Bool) (as : List α) :
    (firstOccurrences as).find? p = as.find? p := by
  induction as with
  | nil => rfl
  | cons b as ih =>
    rw [firstOccurrences, List.find?_cons, List.find?_cons]
    cases hb : p b with
    | true => rfl
    | false =>
      -- What is left out after `b` is `b` itself, which the search passes over anyway.
      have hne (a : α) : decide (decide (a ≠ b) = true ∧ p a = true) = p a := by
        by_cases h : a = b
        · simp [h, hb]
        · simp [h]
      rw [List.find?_filter, funext hne, ih]

/-- Elements that are added one by one come behind those that were there, in the order of their
first occurrence. -/
theorem foldl_appendNew (as bs : List α) :
    bs.foldl appendNew as = as ++ (firstOccurrences bs).filter (· ∉ as) := by
  induction bs generalizing as with
  | nil => simp [firstOccurrences]
  | cons b bs ih =>
    rw [List.foldl_cons, ih, firstOccurrences, List.filter_cons, List.filter_filter, appendNew]
    by_cases hb : b ∈ as
    · -- What is not among the elements already is not `b` either.
      have hand (a : α) : (decide (a ∉ as) && decide (a ≠ b)) = decide (a ∉ as) := by
        by_cases h : a = b
        · simp [h, hb]
        · simp [h]
      rw [if_pos hb, if_neg (by simpa using hb), funext hand]
    · have hand (a : α) : (decide (a ∉ as) && decide (a ≠ b)) = decide (a ∉ as ++ [b]) := by
        simp [not_or]
      rw [if_neg hb, if_pos (by simpa using hb), funext hand, List.append_assoc,
        List.singleton_append]

/-- Whether a list has the elements of another, each of them once and in the order in which they
stand in the other for the first time. -/
structure ListsFirst (as bs : List α) : Prop where
  mem_iff : ∀ a, a ∈ as ↔ a ∈ bs
  ordered : as.Pairwise fun a b => bs.idxOf a < bs.idxOf b

/-- A list of first occurrences has no member twice. -/
theorem ListsFirst.nodup {as bs : List α} (h : ListsFirst as bs) : as.Nodup :=
  h.ordered.imp fun hlt heq => by
    rw [heq] at hlt
    omega

/-- First occurrences stand in the order of the list. -/
theorem ordered_firstOccurrences (as : List α) :
    (firstOccurrences as).Pairwise fun a b => as.idxOf a < as.idxOf b := by
  induction as with
  | nil => exact List.Pairwise.nil
  | cons c as ih =>
    have hother {a : α} (ha : a ∈ (firstOccurrences as).filter (· ≠ c)) :
        (c :: as).idxOf a = as.idxOf a + 1 := by
      have hne : c ≠ a := by
        rintro rfl
        simp at ha
      exact List.idxOf_cons_ne as hne
    refine List.Pairwise.cons ?_ ((ih.filter _).imp_of_mem ?_)
    · intro a ha
      rw [List.idxOf_cons_self, hother ha]
      exact Nat.succ_pos _
    · intro a b ha hb hlt
      rw [hother ha, hother hb]
      exact Nat.succ_lt_succ hlt

/-- There is one list with the elements of another in the order of their first occurrence. -/
theorem listsFirst_iff {as bs : List α} : ListsFirst as bs ↔ as = firstOccurrences bs := by
  constructor
  · intro h
    have hperm : as.Perm (firstOccurrences bs) :=
      (List.perm_ext_iff_of_nodup h.nodup (nodup_firstOccurrences bs)).mpr fun a => by
        rw [h.mem_iff, mem_firstOccurrences]
    -- Both lists are sorted by the place of an element, so they agree.
    refine hperm.eq_of_pairwise ?_ h.ordered (ordered_firstOccurrences bs)
    intro a b _ _ hab hba
    omega
  · rintro rfl
    exact ⟨fun a => mem_firstOccurrences, ordered_firstOccurrences bs⟩

end PayrollFormula
