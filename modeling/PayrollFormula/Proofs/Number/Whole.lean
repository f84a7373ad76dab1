import Mathlib.Tactic.NormNum
import Mathlib.Tactic.Positivity
import PayrollFormula.Eval.Builtin
import PayrollFormula.Proofs.Number.Rank

/-!
# Whole parts of doubles

The largest finite double is a whole number, so rounding any finite double down or up to a whole
number stays within its magnitude, and the result is a finite double again (`exists_whole_floor`,
`exists_whole_ceil`).
-/

set_option autoImplicit false

namespace PayrollFormula

/-- The largest finite double, as a whole number. -/
def Rank.greatestWhole : ℕ := (2 * binade - 1) * 2 ^ 971

/-- The greatest finite rank has the ticks of the greatest whole number. -/
theorem Rank.ticks_limit_pred : ticks (limit - 1) = greatestWhole * one := by
  have hlimit : limit - 1 = 2045 * binade + (2 * binade - 1) := by decide
  have hpos := binade_pos
  rw [hlimit, ticks_mul_add (.inr (by omega)) (by omega), greatestWhole, one, Nat.pow_eq,
    Nat.mul_assoc, ← Nat.pow_add]

/-- A rank is finite exactly if it is at most the greatest one. -/
theorem Rank.lt_limit_iff {r : ℕ} : r < limit ↔ r ≤ limit - 1 := by
  have hpos : 0 < limit := Nat.mul_pos (by decide) binade_pos
  omega

namespace Double

/-- A rank below the limit is that of a finite double. -/
theorem ofRank_of_lt {r : ℕ} (h : r < Rank.limit) (negative : Bool) :
    ofRank negative r = .finite ⟨negative, r, h⟩ := dif_pos h

/-- A quotient of at most the largest finite double is rounded to a finite double. -/
theorem exists_round {num den : ℕ} (hden : 0 < den) (h : num ≤ Rank.greatestWhole * Rank.one * den)
    (negative : Bool) : ∃ x, round negative num den = .finite x := by
  rw [← Rank.ticks_limit_pred] at h
  have hlt : Rank.nearest num den < Rank.limit := Rank.lt_limit_iff.mpr (Rank.nearest_le hden h)
  exact ⟨_, ofRank_of_lt hlt negative⟩

/-- An integer of at most the magnitude of the largest finite double is converted to a double. -/
theorem exists_ofInt {i : ℤ} (h : i.natAbs ≤ Rank.greatestWhole) :
    ∃ x, ofInt i = .ok (.finite x) := by
  have hle : i.natAbs * Rank.one ≤ Rank.greatestWhole * Rank.one * 1 := by
    rw [Nat.mul_one]
    exact Nat.mul_le_mul_right Rank.one h
  obtain ⟨x, hx⟩ := exists_round Nat.one_pos hle (decide (i < 0))
  refine ⟨x, ?_⟩
  unfold ofInt
  rw [hx]
  rfl

end Double

namespace Finite

/-- No finite double is greater than the greatest whole number. -/
theorem magnitude_le (x : Finite) : x.magnitude ≤ Rank.greatestWhole * Rank.one := by
  rw [← Rank.ticks_limit_pred]
  exact Rank.ticks_strictMono.monotone (Rank.lt_limit_iff.mp x.rank_lt)

/-- Without their sign, the ticks of a double are its magnitude. -/
theorem natAbs_ticks (x : Finite) : x.ticks.natAbs = x.magnitude := by
  unfold ticks
  split_ifs <;> simp

/-- Dividing a size that is at most a whole number by the one and rounding down stays within the
whole number. -/
theorem natAbs_ediv_one_le {t : ℤ} {m : ℕ} (h : t.natAbs ≤ m * Rank.one) :
    (t / (Rank.one : ℤ)).natAbs ≤ m := by
  have hpos : (0 : ℤ) < Rank.one := by exact_mod_cast Rank.one_pos
  have hbound : |t| ≤ m * Rank.one := by
    rw [Int.abs_eq_natAbs]
    exact_mod_cast h
  obtain ⟨hlow, hhigh⟩ := abs_le.mp hbound
  have hge : -(m : ℤ) ≤ t / Rank.one := by
    rw [Int.le_ediv_iff_mul_le hpos, neg_mul]
    exact hlow
  have hle : t / Rank.one ≤ m := by
    have hmono := Int.ediv_le_ediv hpos hhigh
    rwa [Int.mul_ediv_cancel _ hpos.ne'] at hmono
  omega

/-- The floor of a finite double is in range. -/
theorem natAbs_floor_le (x : Finite) : x.floor.natAbs ≤ Rank.greatestWhole := by
  apply natAbs_ediv_one_le
  rw [natAbs_ticks]
  exact x.magnitude_le

/-- The ceiling of a finite double is in range. -/
theorem natAbs_ceil_le (x : Finite) : x.ceil.natAbs ≤ Rank.greatestWhole := by
  rw [ceil, Int.natAbs_neg]
  apply natAbs_ediv_one_le
  rw [Int.natAbs_neg, natAbs_ticks]
  exact x.magnitude_le

end Finite

namespace Builtin

/-- An integer that is a double is a result. -/
theorem whole_of_ofInt {i : ℤ} {x : Double} (h : Double.ofInt i = .ok x) :
    whole (.ok i) = .ok x := by
  rw [whole, Except.bind, h, Except.mapError]

/-- The floor of a finite double is a finite result. -/
theorem exists_whole_floor (x : Finite) :
    ∃ y, whole (Double.floor (.finite x)) = .ok (.finite y) := by
  obtain ⟨y, hy⟩ := Double.exists_ofInt x.natAbs_floor_le
  exact ⟨y, whole_of_ofInt hy⟩

/-- The ceiling of a finite double is a finite result. -/
theorem exists_whole_ceil (x : Finite) :
    ∃ y, whole (Double.ceil (.finite x)) = .ok (.finite y) := by
  obtain ⟨y, hy⟩ := Double.exists_ofInt x.natAbs_ceil_le
  exact ⟨y, whole_of_ofInt hy⟩

end Builtin

end PayrollFormula
