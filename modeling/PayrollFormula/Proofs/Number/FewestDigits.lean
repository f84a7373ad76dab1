import PayrollFormula.Proofs.Number.Exact
import PayrollFormula.Proofs.Number.Places

/-!
# The shortest numeral has the fewest digits

The numerals of one exponent that read back as a rank are those between two of them, since rounding
is monotone. So if any numeral reads back as a rank, one of the two next to the rank does, and the
search for the shortest numeral stops at an exponent of at least that of any numeral of the rank
(`exponent_le_shortest`). No numeral of the rank has fewer digits (`coefficient_shortest_lt`).
-/

set_option autoImplicit false

namespace PayrollFormula

namespace Rank

/-! ## Rounding is monotone -/

/-- More ticks have no smaller rank below them. -/
theorem below_mono {a b : ℕ} (h : a ≤ b) : below a ≤ below b :=
  le_below_iff.mpr ((ticks_below_le a).trans h)

/-- A greater number has no smaller nearer neighbour. -/
theorem nearer_mono {a b m : ℕ} (low : ℕ) (h : a ≤ b) :
    nearer low (compare a m) ≤ nearer low (compare b m) := by
  rcases Nat.lt_trichotomy a m with hlt | rfl | hgt
  · rw [Nat.compare_eq_lt.mpr hlt]
    rcases nearer_eq low (compare b m) with ho | ho
    · exact ho.ge
    · rw [ho]
      exact Nat.le_succ low
  · rcases h.eq_or_lt with rfl | hlt
    · exact le_rfl
    · rw [Nat.compare_eq_gt.mpr hlt]
      rcases nearer_eq low (compare a a) with ho | ho
      · rw [ho]
        exact Nat.le_succ low
      · exact ho.le
  · rw [Nat.compare_eq_gt.mpr hgt, Nat.compare_eq_gt.mpr (lt_of_lt_of_le hgt h)]

/-- A greater numerator has no smaller nearest rank. -/
theorem nearest_mono {a b : ℕ} (h : a ≤ b) (den : ℕ) : nearest a den ≤ nearest b den := by
  have hlow : below (a / den) ≤ below (b / den) := below_mono (Nat.div_le_div_right h)
  unfold nearest
  simp only
  rcases hlow.eq_or_lt with heq | hlt
  · rw [heq]
    exact nearer_mono _ (Nat.mul_le_mul_left 2 h)
  · rcases nearer_eq (below (a / den)) (compare (2 * a)
      (den * (ticks (below (a / den)) + ticks (below (a / den) + 1)))) with ha | ha <;>
      rcases nearer_eq (below (b / den)) (compare (2 * b)
        (den * (ticks (below (b / den)) + ticks (below (b / den) + 1)))) with hb | hb <;>
        rw [ha, hb] <;> omega

/-- A greater fraction has no smaller nearest rank. -/
theorem nearest_le_nearest {a b c d : ℕ} (hb : 0 < b) (hd : 0 < d) (h : a * d ≤ c * b) :
    nearest a b ≤ nearest c d := by
  rw [← nearest_mul_right a b hd, ← nearest_mul_right c d hb, Nat.mul_comm d b]
  exact nearest_mono h _

/-- Rounding at most doubles a size. -/
theorem ticks_nearest_le (num den : ℕ) :
    ticks (nearest num den) * den ≤ 2 * num := by
  have hlow : ticks (below (num / den)) * den ≤ num :=
    (Nat.mul_le_mul_right den (ticks_below_le _)).trans (Nat.div_mul_le_self num den)
  unfold nearest
  simp only
  generalize below (num / den) = low at hlow
  rcases nearer_eq low (compare (2 * num) (den * (ticks low + ticks (low + 1)))) with ho | ho
  · rw [ho]
    omega
  · -- The size is rounded up, so it is at least in the middle.
    have hmiddle : den * (ticks low + ticks (low + 1)) ≤ 2 * num := by
      by_contra hlt
      rw [Nat.compare_eq_lt.mpr (not_le.mp hlt)] at ho
      exact absurd ho (Nat.succ_ne_self low).symm
    rw [ho]
    nlinarith

end Rank

namespace Numeral

/-! ## Numerals of one exponent -/

/-- With the same power of ten, a greater coefficient has no smaller rank. -/
theorem rank_mono {c c' : ℕ} (h : c ≤ c') (e : ℤ) :
    (Numeral.mk c e).rank ≤ (Numeral.mk c' e).rank := by
  by_cases hc : c = 0
  · rw [hc, rank_zero]
    exact Nat.zero_le _
  have hc' : c' ≠ 0 := by omega
  have hlog : c.log2 ≤ c'.log2 := (Nat.le_log2 hc').mpr ((Nat.log2_self_le hc).trans h)
  by_cases hhigh : 400 < e
  · simp only [rank, if_neg hc, if_neg hc', if_pos hhigh, le_refl]
  by_cases hlow : 3 * e + c.log2 + 1081 < 0
  · simp only [rank, if_neg hc, if_neg hhigh, if_pos hlow]
    exact Nat.zero_le _
  · rw [rank_eq_nearest (n := ⟨c, e⟩) hc (not_lt.mp hhigh) (not_lt.mp hlow),
      rank_eq_nearest (n := ⟨c', e⟩) hc' (not_lt.mp hhigh) (by simp only; omega)]
    exact Rank.nearest_mono (Nat.mul_le_mul_right _ (Nat.mul_le_mul_right _ h)) _

/-! ## Hits of the search -/

/-- How often a power of ten goes into the size of a rank. -/
def multiples (r : ℕ) (e : ℤ) : ℕ :=
  Rank.ticks r * 10 ^ (-e).toNat / (Rank.one * 10 ^ e.toNat)

/-- A power of ten goes into a rank at least `c` times exactly if `c` times it is at most the rank. -/
theorem le_multiples_iff {r c : ℕ} {e : ℤ} :
    c ≤ multiples r e ↔ c * 10 ^ e.toNat * Rank.one ≤ Rank.ticks r * 10 ^ (-e).toNat := by
  have hden : 0 < Rank.one * 10 ^ e.toNat := Nat.mul_pos Rank.one_pos (ten_pow_pos _)
  rw [multiples, Nat.le_div_iff_mul_le hden, Nat.mul_comm Rank.one, Nat.mul_assoc]

/-- A multiple of a power of ten that is at most of the size of a rank is read as no greater rank. -/
theorem rank_le_of_le_multiples {r c : ℕ} {e : ℤ} (he : e ≤ 400) (h : c ≤ multiples r e) :
    (Numeral.mk c e).rank ≤ r := by
  by_cases hc : c = 0
  · rw [hc, rank_zero]
    exact Nat.zero_le _
  by_cases hlow : 3 * e + c.log2 + 1081 < 0
  · simp only [rank, if_neg hc, if_neg (not_lt.mpr he), if_pos hlow]
    exact Nat.zero_le _
  · rw [rank_eq_nearest (n := ⟨c, e⟩) hc he (not_lt.mp hlow)]
    exact Rank.nearest_le (ten_pow_pos _) (le_multiples_iff.mp h)

/-- A multiple of a power of ten that is greater than a rank is read as no smaller rank. -/
theorem le_rank_of_multiples_lt {r c : ℕ} {e : ℤ} (hr : 0 < r) (he : e ≤ 400)
    (h : multiples r e < c) : r ≤ (Numeral.mk c e).rank := by
  have hsize : Rank.ticks r * 10 ^ (-e).toNat ≤ c * 10 ^ e.toNat * Rank.one := by
    by_contra hlt
    exact absurd (le_multiples_iff.mpr (not_le.mp hlt).le) (not_le.mpr h)
  have hc : c ≠ 0 := by omega
  by_cases hlow : 3 * e + c.log2 + 1081 < 0
  · -- Such a numeral is below the smallest rank.
    have hsmall := mul_one_lt_of_low hlow
    have hticks := Nat.le_mul_of_pos_left (10 ^ (-e).toNat) (Rank.ticks_pos hr)
    omega
  · rw [rank_eq_nearest (n := ⟨c, e⟩) hc he (not_lt.mp hlow)]
    exact Rank.le_nearest (ten_pow_pos _) hsize

/-- Which of the two multiples next to a rank the search takes, if any. -/
theorem atPower_eq (r : ℕ) (e : ℤ) :
    atPower r e =
      if (Numeral.mk (multiples r e) e).rank = r then
        if (Numeral.mk (multiples r e + 1) e).rank = r then
          some ⟨Rank.nearer (multiples r e) (compare (2 * (Rank.ticks r * 10 ^ (-e).toNat))
            (Rank.one * 10 ^ e.toNat * (2 * multiples r e + 1))), e⟩
        else some ⟨multiples r e, e⟩
      else if (Numeral.mk (multiples r e + 1) e).rank = r then some ⟨multiples r e + 1, e⟩
      else none := rfl

/-- The numeral found at a power of ten is at most one multiple above the rank. -/
theorem coefficient_le_of_atPower {r : ℕ} {e : ℤ} {n : Numeral} (h : atPower r e = some n) :
    n.coefficient ≤ multiples r e + 1 := by
  rw [atPower_eq] at h
  generalize compare (2 * (Rank.ticks r * 10 ^ (-e).toNat)) _ = o at h
  generalize multiples r e = c at h ⊢
  split_ifs at h <;> obtain rfl := Option.some.inj h
  · rcases Rank.nearer_eq c o with ho | ho
    · exact ho.trans_le (Nat.le_succ c)
    · exact ho.le
  · exact Nat.le_succ c
  · exact le_rfl

/-- If a numeral reads back as a rank, one of the two of its exponent next to the rank does. -/
theorem exists_atPower_of_rank {n : Numeral} (h0 : 0 < n.rank) (hlimit : n.rank < Rank.limit) :
    ∃ m, atPower n.rank n.exponent = some m := by
  obtain ⟨-, he, -⟩ := unsettled_of_rank h0 hlimit
  obtain ⟨c, e⟩ := n
  generalize hr : (Numeral.mk c e).rank = r at h0 hlimit ⊢
  simp only at he ⊢
  rw [atPower_eq]
  rcases Nat.lt_or_ge (multiples r e) c with hlt | hge
  · have hhigh : (Numeral.mk (multiples r e + 1) e).rank = r :=
      le_antisymm (hr ▸ rank_mono hlt e) (le_rank_of_multiples_lt h0 he (Nat.lt_succ_self _))
    rw [if_pos hhigh]
    split_ifs
    · exact ⟨_, rfl⟩
    · exact ⟨_, rfl⟩
  · have hlow : (Numeral.mk (multiples r e) e).rank = r :=
      le_antisymm (rank_le_of_le_multiples he le_rfl) (hr ▸ rank_mono hge e)
    rw [if_pos hlow]
    split_ifs
    · exact ⟨_, rfl⟩
    · exact ⟨_, rfl⟩

/-! ## The exponent of the shortest numeral -/

/-- The search does not go below the smallest power of ten needed. -/
theorem neg_le_exponent_search (r k : ℕ) : -1074 ≤ (search r k).exponent := by
  induction k with
  | zero => exact le_rfl
  | succ k ih =>
    rw [search]
    cases h : atPower r ((k : ℤ) - 1073) with
    | none => exact ih
    | some n =>
      rw [Option.getD_some, exponent_of_atPower h]
      omega

/-- A numeral of a finite double is not a multiple of a power of ten beyond the doubles. -/
theorem exponent_le_of_rank {n : Numeral} (h0 : 0 < n.rank) (hlimit : n.rank < Rank.limit) :
    n.exponent ≤ 309 := by
  obtain ⟨hc, -, -⟩ := unsettled_of_rank h0 hlimit
  by_contra hexp
  have hneg : (-n.exponent).toNat = 0 := by omega
  have hpow : 10 ^ 309 ≤ 10 ^ n.exponent.toNat := Nat.pow_le_pow_right (by decide) (by omega)
  have hbelow := below_of_rank_lt_limit hlimit
  rw [Below, hneg, Nat.pow_zero, Nat.mul_one] at hbelow
  have hle := Nat.le_mul_of_pos_left (10 ^ n.exponent.toNat) (Nat.pos_of_ne_zero hc)
  exact absurd (hbelow.trans_le hpow) (not_lt.mpr hle)

/-- The shortest numeral of a rank has at least the exponent of any numeral of the rank. -/
theorem exponent_le_shortest {n : Numeral} (h0 : 0 < n.rank) (hlimit : n.rank < Rank.limit) :
    n.exponent ≤ (shortest n.rank).exponent := by
  have hhigh := exponent_le_of_rank h0 hlimit
  rw [shortest, if_neg h0.ne']
  by_cases hlow : n.exponent < -1073
  · have hleast := neg_le_exponent_search n.rank 1383
    omega
  · obtain ⟨j, hj⟩ : ∃ j : ℕ, n.exponent = j - 1073 := ⟨(n.exponent + 1073).toNat, by omega⟩
    obtain ⟨m, hm⟩ := exists_atPower_of_rank h0 hlimit
    rw [hj] at hm ⊢
    exact le_exponent_search_of_atPower hm (by omega)

/-! ## Sizes -/

/-- A numeral of a positive double has at least half the size of the smallest one. -/
theorem le_log2_of_rank {n : Numeral} (h0 : 0 < n.rank) (hlimit : n.rank < Rank.limit) :
    0 ≤ 3 * n.exponent + n.coefficient.log2 + 1075 := by
  obtain ⟨hc, hhigh, hlow⟩ := unsettled_of_rank h0 hlimit
  by_contra hneg
  have hsmall := two_mul_one_lt_of_low (not_le.mp hneg)
  have hround := Rank.ticks_nearest_le (n.coefficient * 10 ^ n.exponent.toNat * Rank.one)
    (10 ^ (-n.exponent).toNat)
  rw [← rank_eq_nearest hc hhigh hlow] at hround
  have hticks := Nat.le_mul_of_pos_left (10 ^ (-n.exponent).toNat) (Rank.ticks_pos h0)
  exact absurd (hticks.trans hround) (not_le.mpr hsmall)

/-- The value of a numeral in ticks. -/
def size (n : Numeral) : ℚ := n.coefficient * 10 ^ n.exponent * Rank.one

/-- The size of a numeral is the quotient of two natural numbers. -/
theorem size_mul (n : Numeral) :
    n.size * 10 ^ (-n.exponent).toNat =
      (n.coefficient * 10 ^ n.exponent.toNat * Rank.one : ℕ) := by
  rw [show n.size = n.toRat * Rank.one from rfl, mul_right_comm, toRat_mul, ← Nat.cast_mul]

/-- Reading a numeral at most doubles its value. -/
theorem ticks_rank_le {n : Numeral} (h0 : 0 < n.rank) (hlimit : n.rank < Rank.limit) :
    (Rank.ticks n.rank : ℚ) ≤ 2 * n.size := by
  obtain ⟨hc, hhigh, hlow⟩ := unsettled_of_rank h0 hlimit
  have hround := Rank.ticks_nearest_le (n.coefficient * 10 ^ n.exponent.toNat * Rank.one)
    (10 ^ (-n.exponent).toNat)
  rw [← rank_eq_nearest hc hhigh hlow] at hround
  have hpos : (0 : ℚ) < 10 ^ (-n.exponent).toNat := by positivity
  refine le_of_mul_le_mul_right ?_ hpos
  rw [mul_assoc, size_mul]
  exact_mod_cast hround

/-- The search ends at a multiple of a power of ten next to the rank. -/
theorem coefficient_search_le (r k : ℕ) :
    (search r k).coefficient ≤ multiples r (search r k).exponent + 1 := by
  induction k with
  | zero =>
    have hexact : (exact r).coefficient * 10 ^ 0 * Rank.one = Rank.ticks r * 10 ^ 1074 := by
      rw [exact, Nat.pow_zero, Nat.mul_one, Nat.mul_assoc, Rank.one, five_pow_mul_two_pow]
    exact Nat.le_succ_of_le (le_multiples_iff.mpr hexact.le)
  | succ k ih =>
    rw [search]
    cases h : atPower r ((k : ℤ) - 1073) with
    | none => exact ih
    | some n =>
      rw [Option.getD_some, exponent_of_atPower h]
      exact coefficient_le_of_atPower h

/-- The shortest numeral is less than one unit of its last digit above its rank. -/
theorem sub_one_mul_le {r : ℕ} (hr : 0 < r) :
    ((shortest r).coefficient - 1 : ℚ) * 10 ^ (shortest r).exponent * Rank.one ≤ Rank.ticks r := by
  rw [shortest, if_neg hr.ne']
  have hle := coefficient_search_le r 1383
  generalize search r 1383 = n at hle ⊢
  have hpos : (0 : ℚ) < 10 ^ (-n.exponent).toNat := by positivity
  refine le_of_mul_le_mul_right ?_ hpos
  have hsize : ((n.coefficient - 1 : ℕ) : ℚ) * 10 ^ n.exponent.toNat * Rank.one ≤
      Rank.ticks r * 10 ^ (-n.exponent).toNat := by
    exact_mod_cast le_multiples_iff.mp (show n.coefficient - 1 ≤ multiples r n.exponent by omega)
  have hsub : (n.coefficient - 1 : ℚ) ≤ (n.coefficient - 1 : ℕ) := by
    rw [sub_le_iff_le_add]
    exact_mod_cast show n.coefficient ≤ n.coefficient - 1 + 1 by omega
  calc (n.coefficient - 1 : ℚ) * 10 ^ n.exponent * Rank.one * 10 ^ (-n.exponent).toNat
      = (n.coefficient - 1) * 10 ^ n.exponent.toNat * Rank.one := by
        rw [← ten_zpow_mul n.exponent]
        ring
    _ ≤ (n.coefficient - 1 : ℕ) * 10 ^ n.exponent.toNat * Rank.one :=
        mul_le_mul_of_nonneg_right (mul_le_mul_of_nonneg_right hsub (by positivity))
          (Nat.cast_nonneg _)
    _ ≤ Rank.ticks r * 10 ^ (-n.exponent).toNat := hsize

/-! ## The fewest digits -/

/-- A further decimal digit adds at most four binary ones. -/
theorem log2_ten_mul_le (c : ℕ) : (10 * c).log2 ≤ c.log2 + 4 := by
  by_cases hc : c = 0
  · simp [hc]
  · have hlt : 10 * c < 2 ^ (c.log2 + 5) := by
      have hself : c < 2 ^ (c.log2 + 1) := Nat.lt_log2_self
      rw [Nat.pow_succ] at hself
      rw [Nat.pow_add]
      omega
    have hlog := (Nat.log2_lt (by omega)).mpr hlt
    omega

/-- A numeral that ends with the digit zero may be written with one digit less. -/
theorem rank_drop_zero {c : ℕ} {e : ℤ} (h0 : 0 < (Numeral.mk (10 * c) e).rank)
    (hlimit : (Numeral.mk (10 * c) e).rank < Rank.limit) :
    (Numeral.mk c (e + 1)).rank = (Numeral.mk (10 * c) e).rank := by
  obtain ⟨hc, -, hlow⟩ := unsettled_of_rank h0 hlimit
  have hhigh := exponent_le_of_rank h0 hlimit
  have hleast := le_log2_of_rank h0 hlimit
  have hlog := log2_ten_mul_le c
  simp only at hc hhigh hleast hlow
  refine rank_congr (by simp only; omega) hc (by simp only; omega) (by simp only; omega)
    (by simp only; omega) hlow ?_
  have hpow : 10 ^ (e + 1).toNat * 10 ^ (-e).toNat = 10 * 10 ^ e.toNat * 10 ^ (-(e + 1)).toNat := by
    rw [← Nat.pow_succ', ← Nat.pow_add, ← Nat.pow_add]
    congr 1
    omega
  simp only
  rw [Nat.mul_assoc, hpow]
  ring

/-- No numeral of the same rank has fewer digits than the shortest one. -/
theorem coefficient_shortest_lt {n : Numeral} (h0 : 0 < n.rank) (hlimit : n.rank < Rank.limit)
    {k : ℕ} (hn : n.coefficient < 10 ^ k) : (shortest n.rank).coefficient < 10 ^ k := by
  obtain ⟨hc, -, -⟩ := unsettled_of_rank h0 hlimit
  obtain ⟨j, rfl⟩ : ∃ j, k = j + 1 := Nat.exists_eq_succ_of_ne_zero fun hk => by
    rw [hk, Nat.pow_zero] at hn
    omega
  have hrank := rank_shortest n.rank
  have hlast := sub_one_mul_le h0
  have hexp := exponent_le_shortest h0 hlimit
  generalize hs : shortest n.rank = s at hrank hlast hexp ⊢
  by_contra hge
  rw [not_lt] at hge
  rcases hexp.eq_or_lt with heq | hlt
  · -- A power of ten lies between the coefficients, and it has fewer digits with a greater exponent.
    have hmiddle : (Numeral.mk (10 * 10 ^ j) s.exponent).rank = n.rank := by
      rw [← Nat.pow_succ']
      refine le_antisymm (hrank ▸ rank_mono hge s.exponent) ?_
      rw [← heq]
      exact rank_mono hn.le n.exponent
    have hdrop := rank_drop_zero (hmiddle ▸ h0) (hmiddle ▸ hlimit)
    rw [hmiddle] at hdrop
    have hcoarser := exponent_le_shortest (hdrop ▸ h0) (hdrop ▸ hlimit)
    rw [hdrop, hs] at hcoarser
    simp only at hcoarser
    omega
  · -- With a greater exponent the coefficient is much smaller than the bound.
    have hone : (0 : ℚ) < Rank.one := by exact_mod_cast Rank.one_pos
    have hvalue : (s.coefficient - 1 : ℚ) * 10 ^ s.exponent ≤
        2 * (n.coefficient * 10 ^ n.exponent) := by
      have hboth := hlast.trans (ticks_rank_le h0 hlimit)
      rw [size, ← mul_assoc 2] at hboth
      exact le_of_mul_le_mul_right hboth hone
    have hpower : (10 : ℚ) ^ n.exponent * 10 ≤ 10 ^ s.exponent := by
      rw [← zpow_add_one₀ (by norm_num)]
      exact zpow_le_zpow_right₀ (by norm_num) (by omega)
    have hpos : (0 : ℚ) < 10 ^ s.exponent := by positivity
    have hcoefficient : (s.coefficient - 1 : ℚ) < 2 * 10 ^ j := by
      have hn' : (n.coefficient : ℚ) < 10 ^ j * 10 := by exact_mod_cast hn
      refine lt_of_mul_lt_mul_right ?_ hpos.le
      calc (s.coefficient - 1 : ℚ) * 10 ^ s.exponent ≤ 2 * (n.coefficient * 10 ^ n.exponent) := hvalue
        _ < 2 * (10 ^ j * 10 * 10 ^ n.exponent) := by gcongr
        _ = 2 * 10 ^ j * (10 ^ n.exponent * 10) := by ring
        _ ≤ 2 * 10 ^ j * 10 ^ s.exponent := by gcongr
    have hge' : (10 : ℚ) ^ j * 10 ≤ s.coefficient := by exact_mod_cast hge
    have hone' : (1 : ℚ) ≤ 10 ^ j := one_le_pow₀ (by norm_num)
    linarith

end Numeral

end PayrollFormula
