import Mathlib.Data.List.Basic
import PayrollFormula.Json.Written
import PayrollFormula.Proofs.Value

/-!
# How deep a value is and how long its integers are

The two things that keep a value from being written as JSON, said part by part: the levels of a
list or record are bounded by those of its parts, and a value has an integer with too many digits
exactly if one stands somewhere inside it.
-/

set_option autoImplicit false

namespace PayrollFormula

namespace Json

/-- A bound on the levels of elements is one on those of each. -/
theorem itemLevels_le_iff {vs : List Value} {n : ℕ} :
    itemLevels vs ≤ n ↔ ∀ v ∈ vs, levels v ≤ n := by
  induction vs with
  | nil => simp [itemLevels]
  | cons v vs ih => rw [itemLevels, Nat.max_le, ih, List.forall_mem_cons]

/-- A bound on the levels of fields is one on those of each value. -/
theorem fieldLevels_le_iff {fs : Fields} {n : ℕ} :
    fieldLevels fs ≤ n ↔ ∀ f ∈ fs, levels f.2 ≤ n := by
  induction fs with
  | nil => simp [fieldLevels]
  | cons f fs ih => rw [fieldLevels, Nat.max_le, ih, List.forall_mem_cons]

/-- A value without parts has one level. -/
theorem levels_atom {v : Value} (hv : v.isAtom = true) : levels v = 1 := by
  cases v with
  | list | record => cases hv
  | _ => rfl

/-- Elements have no long integer exactly if none of them has one. -/
theorem itemsHaveLongInteger_eq_false_iff {vs : List Value} :
    itemsHaveLongInteger vs = false ↔ ∀ v ∈ vs, hasLongInteger v = false := by
  induction vs with
  | nil => simp [itemsHaveLongInteger]
  | cons v vs ih => simp [itemsHaveLongInteger, ih]

/-- Fields have no long integer exactly if the value of none has one. -/
theorem fieldsHaveLongInteger_eq_false_iff {fs : Fields} :
    fieldsHaveLongInteger fs = false ↔ ∀ f ∈ fs, hasLongInteger f.2 = false := by
  induction fs with
  | nil => simp [fieldsHaveLongInteger]
  | cons f fs ih => simp [fieldsHaveLongInteger, ih]

/-- An integer is not long exactly if it has no more digits than are read. -/
theorem isLongInteger_eq_false_iff {i : Int} :
    isLongInteger i = false ↔ i.natAbs < Nat.pow 10 Integer.maxDigits := by
  unfold isLongInteger
  rw [decide_eq_false_iff_not, Nat.not_le]

/-- An integer of one digit is not long. -/
theorem isLongInteger_of_lt_ten {i : Int} (h : i.natAbs < 10) : isLongInteger i = false := by
  have hpow (n : ℕ) (hn : 1 ≤ n) : Nat.pow 10 1 ≤ Nat.pow 10 n :=
    Nat.pow_le_pow_right (by decide) hn
  exact isLongInteger_eq_false_iff.mpr (Nat.lt_of_lt_of_le h (hpow Integer.maxDigits (by decide)))

/-- Whether a value, its parts aside, is no integer with too many digits. -/
def IsShort : Value → Prop
  | .int i => isLongInteger i = false
  | _ => True

/-- A value has no integer with too many digits exactly if none stands somewhere inside it. -/
theorem hasLongInteger_eq_false_iff (v : Value) :
    hasLongInteger v = false ↔ v.Everywhere IsShort := by
  induction v using Value.induction with
  | atom v hv =>
    rw [Value.everywhere_atom hv]
    cases v with
    | list | record => cases hv
    | int i => exact Iff.rfl
    | _ => simp [hasLongInteger, IsShort]
  | list vs ih =>
    rw [hasLongInteger, itemsHaveLongInteger_eq_false_iff, Value.everywhere_list]
    simp only [IsShort, true_and]
    exact forall₂_congr ih
  | record fs ih =>
    rw [hasLongInteger, fieldsHaveLongInteger_eq_false_iff, Value.everywhere_record]
    simp only [IsShort, true_and]
    exact forall₂_congr ih

end Json

end PayrollFormula
