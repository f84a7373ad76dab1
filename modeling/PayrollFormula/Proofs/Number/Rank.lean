import Mathlib.Algebra.Order.Ring.Nat
import Mathlib.Tactic.Linarith
import Mathlib.Tactic.Ring
import PayrollFormula.Number.Rank

/-!
# Ranks and the sizes they stand for

Every rank is a significand of at most 53 bits beyond a number of whole binades, and its size is
the significand times a power of two (`ticks_mul_add`). So the sizes increase by powers of two
(`ticks_succ`), and rounding to the nearest rank gives back every rank from its own size
(`nearest_ticks`). What rounding does depends on the quotient only, and not on how the quotient is
written (`nearest_mul_right`). Rounding never passes a rank: what is at most, or at least, of the
size of a rank is rounded to at most, or at least, that rank (`nearest_le`, `le_nearest`).
-/

set_option autoImplicit false

namespace PayrollFormula

namespace Rank

/-- A binade has ranks. -/
theorem binade_pos : 0 < binade := by decide

/-- A binade has as many ranks as there are numbers of fifty-two bits. -/
theorem binade_eq : binade = 2 ^ 52 := rfl

/-- One has a positive number of ticks. -/
theorem one_pos : 0 < one := by
  unfold one
  exact Nat.two_pow_pos _

/-- The scale of a rank is the number of binades below its significand. -/
theorem scale_mul_add {s m : ℕ} (hs : s = 0 ∨ binade ≤ m) (hm : m < 2 * binade) :
    scale (s * binade + m) = s := by
  have hdiv : (s * binade + m) / binade = s + m / binade := by
    rw [Nat.add_comm, Nat.add_mul_div_right m s binade_pos, Nat.add_comm]
  have hlt : m / binade < 2 := Nat.div_lt_of_lt_mul (by rwa [Nat.mul_comm])
  unfold scale
  rw [hdiv]
  rcases hs with rfl | hs
  · omega
  · have hpos : 1 ≤ m / binade := (Nat.one_le_div_iff binade_pos).mpr hs
    omega

/-- The ticks of a rank are its significand times a power of two. -/
theorem ticks_mul_add {s m : ℕ} (hs : s = 0 ∨ binade ≤ m) (hm : m < 2 * binade) :
    ticks (s * binade + m) = m * 2 ^ s := by
  unfold ticks
  rw [scale_mul_add hs hm, Nat.add_sub_cancel_left, Nat.pow_eq]

/-- Every rank is a significand beyond some whole binades. -/
theorem exists_significand (r : ℕ) :
    ∃ s m, r = s * binade + m ∧ (s = 0 ∨ binade ≤ m) ∧ m < 2 * binade := by
  have hmod := Nat.mod_lt r binade_pos
  have hdiv := Nat.div_add_mod' r binade
  cases hq : r / binade with
  | zero =>
    rw [hq] at hdiv
    exact ⟨0, r, by simp, .inl rfl, by omega⟩
  | succ q =>
    rw [hq, Nat.succ_mul] at hdiv
    exact ⟨q, binade + r % binade, by omega, .inr (by omega), by omega⟩

/-- Each size exceeds the one before by a power of two. -/
theorem ticks_succ (r : ℕ) : ticks (r + 1) = ticks r + 2 ^ scale r := by
  obtain ⟨s, m, rfl, hs, hm⟩ := exists_significand r
  rw [scale_mul_add hs hm, ticks_mul_add hs hm]
  by_cases hlast : m + 1 < 2 * binade
  · have hs' : s = 0 ∨ binade ≤ m + 1 := hs.imp id (by omega)
    rw [Nat.add_assoc, ticks_mul_add hs' hlast]
    ring
  · have hm' : m + 1 = 2 * binade := by omega
    have hnext : s * binade + m + 1 = (s + 1) * binade + binade := by
      rw [Nat.add_assoc, hm']
      ring
    have hb := binade_pos
    rw [hnext, ticks_mul_add (.inr le_rfl) (by omega)]
    calc binade * 2 ^ (s + 1) = 2 * binade * 2 ^ s := by ring
      _ = (m + 1) * 2 ^ s := by rw [hm']
      _ = m * 2 ^ s + 2 ^ s := by ring

/-- The next rank has more ticks. -/
theorem ticks_lt_succ (r : ℕ) : ticks r < ticks (r + 1) := by
  rw [ticks_succ]
  exact Nat.lt_add_of_pos_right (Nat.two_pow_pos _)

/-- A greater rank has more ticks. -/
theorem ticks_strictMono : StrictMono ticks := strictMono_nat_of_lt_succ ticks_lt_succ

/-- A rank is the greatest that is not above its own size. -/
theorem below_ticks (r : ℕ) : below (ticks r) = r := by
  obtain ⟨s, m, rfl, hs, hm⟩ := exists_significand r
  rw [ticks_mul_add hs hm]
  have hk : (m * 2 ^ s).log2 - 52 = s := by
    by_cases hb : binade ≤ m
    · have hm0 : m ≠ 0 := by
        have := binade_pos
        omega
      have hne : m * 2 ^ s ≠ 0 := Nat.mul_ne_zero hm0 (Nat.two_pow_pos s).ne'
      have hlog : (m * 2 ^ s).log2 = 52 + s := by
        rw [Nat.log2_eq_iff hne]
        rw [binade_eq] at hb hm
        constructor
        · rw [Nat.pow_add]
          exact Nat.mul_le_mul_right _ hb
        · rw [show 52 + s + 1 = 53 + s by omega, Nat.pow_add]
          exact Nat.mul_lt_mul_of_pos_right (by omega) (Nat.two_pow_pos s)
      omega
    · obtain rfl : s = 0 := hs.resolve_right hb
      have hlt : (m * 2 ^ 0).log2 < 53 := by
        by_cases h0 : m = 0
        · simp [h0]
        · rw [Nat.log2_lt (by simpa using h0)]
          rw [binade_eq] at hm
          omega
      omega
  unfold below
  simp only [hk, Nat.pow_eq]
  rw [Nat.mul_div_cancel _ (Nat.two_pow_pos s)]

/-- The significand and the scale of the greatest rank of at most some size. -/
theorem below_significand (q : ℕ) :
    (q.log2 - 52 = 0 ∨ binade ≤ q / 2 ^ (q.log2 - 52)) ∧ q / 2 ^ (q.log2 - 52) < 2 * binade := by
  rw [binade_eq]
  constructor
  · by_cases hsmall : q.log2 ≤ 52
    · exact .inl (by omega)
    · have hne : q ≠ 0 := by
        rintro rfl
        simp at hsmall
      have hlow : 2 ^ 52 * 2 ^ (q.log2 - 52) ≤ q := by
        rw [← Nat.pow_add, Nat.add_sub_cancel' (by omega)]
        exact Nat.log2_self_le hne
      exact .inr ((Nat.le_div_iff_mul_le (Nat.two_pow_pos _)).mpr hlow)
  · rw [Nat.div_lt_iff_lt_mul (Nat.two_pow_pos _)]
    calc q < 2 ^ (q.log2 + 1) := Nat.lt_log2_self
      _ ≤ 2 ^ (53 + (q.log2 - 52)) := Nat.pow_le_pow_right (by decide) (by omega)
      _ = 2 * 2 ^ 52 * 2 ^ (q.log2 - 52) := by rw [Nat.pow_add]; rfl

/-- The rank below ticks has their first fifty-three bits. -/
theorem ticks_below (q : ℕ) :
    ticks (below q) = q / 2 ^ (q.log2 - 52) * 2 ^ (q.log2 - 52) ∧
      scale (below q) = q.log2 - 52 := by
  obtain ⟨hs, hm⟩ := below_significand q
  unfold below
  simp only [Nat.pow_eq]
  exact ⟨ticks_mul_add hs hm, scale_mul_add hs hm⟩

/-- The rank below ticks has no more of them. -/
theorem ticks_below_le (q : ℕ) : ticks (below q) ≤ q := by
  rw [(ticks_below q).1]
  exact Nat.div_mul_le_self q _

/-- The rank after the one below ticks has more of them. -/
theorem lt_ticks_below_succ (q : ℕ) : q < ticks (below q + 1) := by
  obtain ⟨hticks, hscale⟩ := ticks_below q
  rw [ticks_succ, hticks, hscale]
  have hlt := Nat.lt_mul_div_succ q (Nat.two_pow_pos (q.log2 - 52))
  linarith

/-- Of the ranks of at most some size, the greatest is the one that is so called. -/
theorem le_below_iff {r q : ℕ} : r ≤ below q ↔ ticks r ≤ q := by
  constructor
  · intro h
    exact le_trans (ticks_strictMono.monotone h) (ticks_below_le q)
  · intro h
    have hlt := ticks_strictMono.lt_iff_lt.mp (lt_of_le_of_lt h (lt_ticks_below_succ q))
    omega

/-- The nearer neighbour is one of the two. -/
theorem nearer_eq (low : ℕ) (o : Ordering) : nearer low o = low ∨ nearer low o = low + 1 := by
  cases o with
  | lt => exact .inl rfl
  | gt => exact .inr rfl
  | eq => exact ite_eq_or_eq _ _ _

/-- Rounding the size of a rank gives the rank, however the size is written as a quotient. -/
theorem nearest_ticks (r : ℕ) {d : ℕ} (hd : 0 < d) : nearest (ticks r * d) d = r := by
  have hlow : below (ticks r * d / d) = r := by rw [Nat.mul_div_cancel _ hd, below_ticks]
  have hlt : 2 * (ticks r * d) < d * (ticks r + ticks (r + 1)) := by
    have := Nat.mul_lt_mul_of_pos_left (ticks_lt_succ r) hd
    linarith
  unfold nearest
  simp only [hlow]
  rw [Nat.compare_eq_lt.mpr hlt]
  rfl

/-- Nothing of at least the size of a rank is rounded to a smaller rank. -/
theorem le_nearest {r num den : ℕ} (hden : 0 < den) (h : ticks r * den ≤ num) :
    r ≤ nearest num den := by
  have hlow : r ≤ below (num / den) := le_below_iff.mpr ((Nat.le_div_iff_mul_le hden).mpr h)
  unfold nearest
  rcases nearer_eq (below (num / den)) (compare (2 * num)
    (den * (ticks (below (num / den)) + ticks (below (num / den) + 1)))) with ho | ho
  · rw [ho]
    exact hlow
  · rw [ho]
    exact Nat.le_succ_of_le hlow

/-- Nothing of at most the size of a rank is rounded to a greater rank. -/
theorem nearest_le {r num den : ℕ} (hden : 0 < den) (h : num ≤ ticks r * den) :
    nearest num den ≤ r := by
  rcases Nat.lt_or_ge num (ticks r * den) with hlt | hge
  · have hlow : below (num / den) < r := by
      rw [← not_le, le_below_iff, not_le]
      exact (Nat.div_lt_iff_lt_mul hden).mpr hlt
    unfold nearest
    rcases nearer_eq (below (num / den)) (compare (2 * num)
      (den * (ticks (below (num / den)) + ticks (below (num / den) + 1)))) with ho | ho
    · rw [ho]
      exact hlow.le
    · rw [ho]
      exact hlow
  · rw [le_antisymm h hge, nearest_ticks r hden]

/-- Rounding depends on the quotient, and not on how it is written. -/
theorem nearest_mul_right (a b : ℕ) {k : ℕ} (hk : 0 < k) :
    nearest (a * k) (b * k) = nearest a b := by
  have hdiv : a * k / (b * k) = a / b := Nat.mul_div_mul_right a b hk
  have hcmp (c : ℕ) : compare (2 * (a * k)) (b * k * c) = compare (2 * a) (b * c) := by
    rw [show 2 * (a * k) = 2 * a * k by ring, show b * k * c = b * c * k by ring]
    simp only [Nat.compare_eq_ite_lt, Nat.mul_lt_mul_right hk]
  unfold nearest
  simp only [hdiv, hcmp]

end Rank

end PayrollFormula
