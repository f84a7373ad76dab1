import Mathlib.Tactic.NormNum
import PayrollFormula.Number.Shortest
import PayrollFormula.Proofs.Number.Rank

/-!
# The shortest numeral reads back

The search for the shortest numeral stops only at numerals that read back as the rank it started
from, and the numeral at which it ends at the latest is the exact value of the rank, which reads
back too. So `Numeral.shortest` is undone by `Numeral.rank` (`rank_shortest`).
-/

set_option autoImplicit false

namespace PayrollFormula

/-- A rank above zero has ticks. -/
theorem Rank.ticks_pos {r : ℕ} (hr : 0 < r) : 0 < ticks r := by
  have h := ticks_strictMono hr
  rwa [ticks_zero] at h

namespace Numeral

/-- A coefficient of zero has rank zero. -/
@[simp] theorem rank_zero (e : ℤ) : (Numeral.mk 0 e).rank = 0 := by
  simp [rank]

/-- Unless the exponent settles the outcome, the rank is found by rounding. -/
theorem rank_eq_nearest {n : Numeral} (h0 : n.coefficient ≠ 0) (hhigh : n.exponent ≤ 400)
    (hlow : 0 ≤ 3 * n.exponent + n.coefficient.log2 + 1081) :
    n.rank = Rank.nearest (n.coefficient * 10 ^ n.exponent.toNat * Rank.one)
      (10 ^ (-n.exponent).toNat) := by
  unfold rank
  rw [if_neg h0, if_neg (by omega), if_neg (by omega), Nat.pow_eq, Nat.pow_eq]

/-- Numerals of one value have one rank, unless an exponent settles the outcome. -/
theorem rank_congr {n m : Numeral} (hn : n.coefficient ≠ 0) (hm : m.coefficient ≠ 0)
    (hnhigh : n.exponent ≤ 400) (hnlow : 0 ≤ 3 * n.exponent + n.coefficient.log2 + 1081)
    (hmhigh : m.exponent ≤ 400) (hmlow : 0 ≤ 3 * m.exponent + m.coefficient.log2 + 1081)
    (h : n.coefficient * 10 ^ n.exponent.toNat * 10 ^ (-m.exponent).toNat =
      m.coefficient * 10 ^ m.exponent.toNat * 10 ^ (-n.exponent).toNat) : n.rank = m.rank := by
  have hnum : n.coefficient * 10 ^ n.exponent.toNat * Rank.one * 10 ^ (-m.exponent).toNat =
      m.coefficient * 10 ^ m.exponent.toNat * Rank.one * 10 ^ (-n.exponent).toNat := by
    rw [Nat.mul_right_comm, h, Nat.mul_right_comm]
  rw [rank_eq_nearest hn hnhigh hnlow, rank_eq_nearest hm hmhigh hmlow,
    ← Rank.nearest_mul_right _ _ (Nat.pow_pos (n := (-m.exponent).toNat) (show 0 < 10 by decide)),
    ← Rank.nearest_mul_right (m.coefficient * _ * _) _
      (Nat.pow_pos (n := (-n.exponent).toNat) (show 0 < 10 by decide)),
    hnum, Nat.mul_comm (10 ^ (-n.exponent).toNat)]

/-- A multiple of a power of five has more than twice as many bits as the power has factors. -/
theorem two_mul_le_log2 {c : ℕ} (hc : 0 < c) (k : ℕ) : 2 * k ≤ (c * Nat.pow 5 k).log2 := by
  have hpos : 0 < 5 ^ k := Nat.pow_pos (by decide)
  rw [Nat.pow_eq, Nat.le_log2 (Nat.mul_ne_zero hc.ne' hpos.ne')]
  calc 2 ^ (2 * k) = 4 ^ k := by rw [Nat.pow_mul]
    _ ≤ 5 ^ k := Nat.pow_le_pow_left (by decide) k
    _ ≤ c * 5 ^ k := Nat.le_mul_of_pos_left _ hc

/-- Powers of five and of two make one of ten. -/
theorem five_pow_mul_two_pow (k : ℕ) : Nat.pow 5 k * Nat.pow 2 k = 10 ^ k := by
  rw [Nat.pow_eq, Nat.pow_eq, ← Nat.mul_pow]

/-- The size of a rank, written in the power of ten that has the power of two of a tick, reads back
as the rank. -/
theorem rank_of_five_pow {r k : ℕ} (hr : 0 < r) (hone : Rank.one = Nat.pow 2 k) (hk : k ≤ 1081) :
    (Numeral.mk (Rank.ticks r * Nat.pow 5 k) (-k)).rank = r := by
  have hlog := two_mul_le_log2 (Rank.ticks_pos hr) k
  have h0 : Rank.ticks r * Nat.pow 5 k ≠ 0 :=
    Nat.mul_ne_zero (Rank.ticks_pos hr).ne' (Nat.pow_pos (by decide)).ne'
  have hexp : (-(k : ℤ)).toNat = 0 := by omega
  have hnum : Rank.ticks r * Nat.pow 5 k * 10 ^ 0 * Rank.one = Rank.ticks r * 10 ^ k := by
    rw [Nat.pow_zero, Nat.mul_one, hone, Nat.mul_assoc, five_pow_mul_two_pow]
  rw [rank_eq_nearest h0 (by simp only; omega) (by simp only; omega)]
  simp only [hexp, hnum, Int.neg_neg, Int.toNat_natCast]
  exact Rank.nearest_ticks r (Nat.pow_pos (by decide))

/-- The exact numeral of a rank reads back as the rank. -/
theorem rank_exact {r : ℕ} (hr : 0 < r) : (exact r).rank = r :=
  rank_of_five_pow hr rfl (by decide)

/-- The numeral found at a power of ten reads back as the rank. -/
theorem rank_of_atPower {r : ℕ} {e : ℤ} {n : Numeral} (h : atPower r e = some n) : n.rank = r := by
  unfold atPower at h
  generalize Rank.ticks r * Nat.pow 10 (-e).toNat = num at h
  generalize Rank.one * Nat.pow 10 e.toNat = den at h
  simp only at h
  split_ifs at h with hlow hhigh hhigh
  · obtain rfl := Option.some.inj h
    rcases Rank.nearer_eq (num / den) (compare (2 * num) (den * (2 * (num / den) + 1))) with ho | ho
    · rw [ho, hlow]
    · rw [ho, hhigh]
  · obtain rfl := Option.some.inj h
    exact hlow
  · obtain rfl := Option.some.inj h
    exact hhigh

/-- Wherever the search starts, it ends at a numeral that reads back as the rank. -/
theorem rank_search {r : ℕ} (hr : 0 < r) (k : ℕ) : (search r k).rank = r := by
  induction k with
  | zero => exact rank_exact hr
  | succ k ih =>
    unfold search
    cases h : atPower r ((k : ℤ) - 1073) with
    | none => exact ih
    | some n => exact rank_of_atPower h

/-- The shortest numeral of a rank reads back as the rank. -/
theorem rank_shortest (r : ℕ) : (shortest r).rank = r := by
  unfold shortest
  split_ifs with h
  · rw [h, rank_zero]
  · exact rank_search (Nat.pos_of_ne_zero h) 1383

end Numeral

end PayrollFormula
