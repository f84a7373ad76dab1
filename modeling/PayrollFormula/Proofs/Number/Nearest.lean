import PayrollFormula.Proofs.Number.FewestDigits

/-!
# Rounding goes to the nearest double

No rank is closer to an exact size than the one that `Rank.nearest` gives, and where another is as
close this one is even (`Rank.isNearest_nearest`). The same holds of the double that has a sign and
the rank of a numeral, among all finite doubles of either sign (`Finite.isNearest_of_rank`).
-/

set_option autoImplicit false

namespace PayrollFormula

namespace Rank

/-- Whether a rank is the nearest to a size: every other one is farther away, or as far away if this
one is even. -/
def IsNearest (q : ℚ) (r : ℕ) : Prop :=
  ∀ r' : ℕ, |(ticks r : ℚ) - q| < |(ticks r' : ℚ) - q| ∨
    |(ticks r : ℚ) - q| = |(ticks r' : ℚ) - q| ∧ (r' = r ∨ r % 2 = 0)

section Neighbours

variable {low r : ℕ} {q : ℚ}

/-- A greater rank has no fewer ticks. -/
theorem cast_ticks_le {r r' : ℕ} (h : r ≤ r') : (ticks r : ℚ) ≤ ticks r' := by
  exact_mod_cast ticks_strictMono.monotone h

/-- The distance to a rank that is not above is what is missing. -/
theorem abs_ticks_sub_of_le (hlow : ticks low ≤ q) (h : r ≤ low) :
    |(ticks r : ℚ) - q| = q - ticks r := by
  rw [abs_sub_comm, abs_of_nonneg (sub_nonneg.mpr ((cast_ticks_le h).trans hlow))]

/-- The distance to a rank above is what is too much. -/
theorem abs_ticks_sub_of_lt (hhigh : q < ticks (low + 1)) (h : low < r) :
    |(ticks r : ℚ) - q| = ticks r - q :=
  abs_of_nonneg (sub_nonneg.mpr (hhigh.le.trans (cast_ticks_le h)))

/-- The lower neighbour of a size is the nearest rank if it is closer than the upper one, or as
close and even. -/
theorem isNearest_low (hlow : ticks low ≤ q) (hhigh : q < ticks (low + 1))
    (h : q - ticks low < ticks (low + 1) - q ∨
      q - ticks low = ticks (low + 1) - q ∧ low % 2 = 0) : IsNearest q low := by
  intro r
  rw [abs_ticks_sub_of_le hlow le_rfl]
  rcases Nat.lt_trichotomy r low with hlt | rfl | hgt
  · rw [abs_ticks_sub_of_le hlow hlt.le]
    exact .inl (sub_lt_sub_left (by exact_mod_cast ticks_strictMono hlt) q)
  · exact .inr ⟨(abs_ticks_sub_of_le hlow le_rfl).symm, .inl rfl⟩
  · have hfar : (ticks (low + 1) : ℚ) - q ≤ ticks r - q := sub_le_sub_right (cast_ticks_le hgt) q
    rw [abs_ticks_sub_of_lt hhigh hgt]
    rcases h with h | ⟨h, heven⟩
    · exact .inl (h.trans_le hfar)
    · exact (h.trans_le hfar).lt_or_eq.imp_right fun heq => ⟨heq, .inr heven⟩

/-- The upper neighbour of a size is the nearest rank if it is closer than the lower one, or as
close and even. -/
theorem isNearest_high (hlow : ticks low ≤ q) (hhigh : q < ticks (low + 1))
    (h : ticks (low + 1) - q < q - ticks low ∨
      ticks (low + 1) - q = q - ticks low ∧ (low + 1) % 2 = 0) : IsNearest q (low + 1) := by
  intro r
  rw [abs_ticks_sub_of_lt hhigh (Nat.lt_succ_self low)]
  rcases Nat.lt_trichotomy r (low + 1) with hlt | rfl | hgt
  · have hle := Nat.lt_succ_iff.mp hlt
    have hfar : q - ticks low ≤ q - ticks r := sub_le_sub_left (cast_ticks_le hle) q
    rw [abs_ticks_sub_of_le hlow hle]
    rcases h with h | ⟨h, heven⟩
    · exact .inl (h.trans_le hfar)
    · exact (h.trans_le hfar).lt_or_eq.imp_right fun heq => ⟨heq, .inr heven⟩
  · exact .inr ⟨(abs_ticks_sub_of_lt hhigh (Nat.lt_succ_self low)).symm, .inl rfl⟩
  · rw [abs_ticks_sub_of_lt hhigh ((Nat.lt_succ_self low).trans hgt)]
    exact .inl (sub_lt_sub_right (by exact_mod_cast ticks_strictMono hgt) q)

/-- Zero is the nearest rank to what is below half a tick. -/
theorem isNearest_zero (hq : 0 ≤ q) (h : 2 * q < 1) : IsNearest q 0 := by
  have hone : ticks (0 + 1) = 1 := ticks_eq_self (by decide)
  refine isNearest_low ?_ ?_ (.inl ?_)
  · rwa [ticks_zero, Nat.cast_zero]
  · rw [hone, Nat.cast_one]
    linarith
  · rw [ticks_zero, hone, Nat.cast_zero, Nat.cast_one]
    linarith

end Neighbours

/-- Rounding a quotient gives the rank nearest to it. -/
theorem isNearest_nearest (num : ℕ) {den : ℕ} (hden : 0 < den) :
    IsNearest (num / den) (nearest num den) := by
  have hpos : (0 : ℚ) < den := by exact_mod_cast hden
  have hlow : (ticks (below (num / den)) : ℚ) ≤ num / den := by
    rw [le_div_iff₀ hpos]
    exact_mod_cast (Nat.le_div_iff_mul_le hden).mp (ticks_below_le _)
  have hhigh : (num / den : ℚ) < ticks (below (num / den) + 1) := by
    rw [div_lt_iff₀ hpos]
    exact_mod_cast (Nat.div_lt_iff_lt_mul hden).mp (lt_ticks_below_succ _)
  unfold nearest
  generalize below (num / den) = low at hlow hhigh
  generalize hmiddle : ticks low + ticks (low + 1) = m
  -- The quotient is compared with the middle between its neighbours.
  have hm : (ticks low + ticks (low + 1) : ℚ) = m := by exact_mod_cast hmiddle
  have hnum : 2 * (num : ℚ) = den * (2 * (num / den)) := by
    rw [mul_left_comm, mul_div_cancel₀ _ hpos.ne']
  simp only
  rcases Nat.lt_trichotomy (2 * num) (den * m) with hlt | heq | hgt
  · have hq : 2 * (num / den : ℚ) < m :=
      lt_of_mul_lt_mul_left (by rw [← hnum]; exact_mod_cast hlt) hpos.le
    rw [hmiddle, Nat.compare_eq_lt.mpr hlt]
    have hcloser : (num / den : ℚ) - ticks low < ticks (low + 1) - num / den := by linarith
    exact isNearest_low hlow hhigh (.inl hcloser)
  · have hq : 2 * (num / den : ℚ) = m :=
      mul_left_cancel₀ hpos.ne' (by rw [← hnum]; exact_mod_cast heq)
    rw [hmiddle, Nat.compare_eq_eq.mpr heq]
    simp only [nearer]
    split_ifs with heven
    · exact isNearest_low hlow hhigh (.inr ⟨by linarith, heven⟩)
    · exact isNearest_high hlow hhigh (.inr ⟨by linarith, by omega⟩)
  · have hq : (m : ℚ) < 2 * (num / den) :=
      lt_of_mul_lt_mul_left (by rw [← hnum]; exact_mod_cast hgt) hpos.le
    rw [hmiddle, Nat.compare_eq_gt.mpr hgt]
    have hcloser : (ticks (low + 1) : ℚ) - num / den < num / den - ticks low := by linarith
    exact isNearest_high hlow hhigh (.inl hcloser)

end Rank

/-- A numeral is read as the rank nearest to its size, unless its exponent makes it overflow. -/
theorem Numeral.isNearest_rank {n : Numeral} (h : n.exponent ≤ 400) :
    Rank.IsNearest n.size n.rank := by
  have hpos : (0 : ℚ) < 10 ^ (-n.exponent).toNat := by positivity
  have hsize : 0 ≤ n.size := mul_nonneg n.toRat_nonneg (Nat.cast_nonneg _)
  by_cases hc : n.coefficient = 0
  · rw [rank, if_pos hc]
    refine Rank.isNearest_zero hsize ?_
    rw [size, hc, Nat.cast_zero, zero_mul, zero_mul, mul_zero]
    exact zero_lt_one
  by_cases hlow : 3 * n.exponent + n.coefficient.log2 + 1081 < 0
  · rw [rank, if_neg hc, if_neg (not_lt.mpr h), if_pos hlow]
    refine Rank.isNearest_zero hsize (lt_of_mul_lt_mul_right ?_ hpos.le)
    have hsmall := @two_mul_one_lt_of_low n.coefficient n.exponent (by omega)
    rw [mul_assoc, size_mul, one_mul]
    generalize n.coefficient * 10 ^ n.exponent.toNat * Rank.one = m at hsmall ⊢
    exact_mod_cast hsmall
  · rw [rank_eq_nearest hc h (not_lt.mp hlow), (eq_div_iff hpos.ne').mpr n.size_mul]
    exact_mod_cast Rank.isNearest_nearest _ (ten_pow_pos _)

namespace Finite

/-- Whether a finite double is the nearest to a number: every other one is farther away, or as far
away if this one is even. -/
def IsNearest (q : ℚ) (y : Finite) : Prop :=
  ∀ z : Finite, |y.toRat - q| < |z.toRat - q| ∨
    |y.toRat - q| = |z.toRat - q| ∧ (z.toRat = y.toRat ∨ y.rank % 2 = 0)

/-- A distance may be measured in ticks. -/
theorem abs_div_one_sub (m a : ℚ) : |m / Rank.one - a| = |m - a * Rank.one| / Rank.one := by
  rw [← abs_of_pos one_pos, ← abs_div, abs_of_pos one_pos, sub_div,
    mul_div_cancel_right₀ a one_pos.ne']

/-- A double with the rank nearest to the size of a magnitude is nearest to the magnitude under its
sign. -/
theorem isNearest_of_rank {y : Finite} {a : ℚ} (ha : 0 ≤ a)
    (h : Rank.IsNearest (a * Rank.one) y.rank) : y.IsNearest (signedRat y.negative a) := by
  have hdist (r : ℕ) : |(Rank.ticks y.rank / Rank.one - a : ℚ)| < |(Rank.ticks r / Rank.one - a : ℚ)| ∨
      |(Rank.ticks y.rank / Rank.one - a : ℚ)| = |(Rank.ticks r / Rank.one - a : ℚ)| ∧
        (r = y.rank ∨ y.rank % 2 = 0) := by
    rw [abs_div_one_sub, abs_div_one_sub, div_lt_div_iff_of_pos_right one_pos,
      div_left_inj' one_pos.ne']
    exact h r
  intro z
  rw [toRat_eq y, abs_signedRat_sub]
  by_cases hsign : z.negative = y.negative
  · rw [toRat_eq z, hsign, abs_signedRat_sub]
    refine (hdist z.rank).imp_right (And.imp_right (Or.imp_left fun hrank => ?_))
    rw [magnitude, magnitude, hrank]
  · -- A number of the other sign is at least as far away as zero.
    have hmagnitude : (0 : ℚ) ≤ z.magnitude / Rank.one := div_nonneg (Nat.cast_nonneg _) one_pos.le
    have hfar : a ≤ z.magnitude / Rank.one + a := le_add_of_nonneg_left hmagnitude
    rw [toRat_eq z, Bool.eq_not.mpr hsign, abs_signedRat_not_sub _ hmagnitude ha]
    have hzero := hdist 0
    rw [Rank.ticks_zero, Nat.cast_zero, zero_div, zero_sub, abs_neg, abs_of_nonneg ha] at hzero
    rcases hzero with hlt | ⟨heq, hrank⟩
    · exact .inl (hlt.trans_le hfar)
    · exact (heq.trans_le hfar).lt_or_eq.imp_right fun hsame => ⟨hsame, .inr (by omega)⟩

end Finite

end PayrollFormula
