import Mathlib.Tactic.NormNum
import Mathlib.Tactic.Positivity
import PayrollFormula.Number.Places
import PayrollFormula.Proofs.Number.Exact
import PayrollFormula.Proofs.Number.Shortest

/-!
# Rounding to decimal places succeeds

A finite double that is rounded to at most fifteen decimal places, before or after the point, is a
finite double again, and the rounded number has few enough digits (`Finite.toPlaces?_eq`). A large
double has a shortest numeral that is a multiple of `10 ^ 15` already, so rounding leaves its value
alone; a smaller one grows by less than `10 ^ 15` and stays far from the largest double. So the
function that rounds is refused only numbers of places that are not whole or out of range
(`Builtin.roundTo_of_isPlaces`, `Builtin.roundTo_of_not_isPlaces`).
-/

set_option autoImplicit false

namespace PayrollFormula

namespace Numeral

/-! ## Bounds on the value -/

/-- Whether the value of a numeral is below a number. -/
def Below (n : Numeral) (b : ℕ) : Prop :=
  n.coefficient * 10 ^ n.exponent.toNat < b * 10 ^ (-n.exponent).toNat

/-- Powers of ten are positive. -/
theorem ten_pow_pos (k : ℕ) : 0 < 10 ^ k := Nat.pow_pos (by decide)

/-- A numeral with an exponent far enough below zero is below a negative power of two. -/
theorem mul_two_pow_lt_of_low {c j : ℕ} {e : ℤ} (h : 3 * e + c.log2 + j < 0) :
    c * 10 ^ e.toNat * 2 ^ j < 10 ^ (-e).toNat := by
  obtain ⟨k, rfl⟩ : ∃ k : ℕ, e = -k := ⟨(-e).toNat, by omega⟩
  have hk : c.log2 + 1 + j ≤ 3 * k := by omega
  rw [Int.neg_neg, Int.toNat_natCast, show (-(k : ℤ)).toNat = 0 by omega, Nat.pow_zero, Nat.mul_one]
  calc c * 2 ^ j < 2 ^ (c.log2 + 1) * 2 ^ j :=
        Nat.mul_lt_mul_of_pos_right Nat.lt_log2_self (Nat.two_pow_pos j)
    _ = 2 ^ (c.log2 + 1 + j) := by rw [← Nat.pow_add]
    _ ≤ 2 ^ (3 * k) := Nat.pow_le_pow_right (by decide) hk
    _ = 8 ^ k := by rw [Nat.pow_mul]
    _ ≤ 10 ^ k := Nat.pow_le_pow_left (by decide) k

/-- A numeral whose exponent makes it round to zero is below the smallest rank. -/
theorem mul_one_lt_of_low {c : ℕ} {e : ℤ} (h : 3 * e + c.log2 + 1081 < 0) :
    c * 10 ^ e.toNat * Rank.one < 10 ^ (-e).toNat :=
  mul_two_pow_lt_of_low (j := 1074) (by omega)

/-- A numeral with an exponent that is low enough is below half a tick. -/
theorem two_mul_one_lt_of_low {c : ℕ} {e : ℤ} (h : 3 * e + c.log2 + 1075 < 0) :
    2 * (c * 10 ^ e.toNat * Rank.one) < 10 ^ (-e).toNat := by
  have htwo : c * 10 ^ e.toNat * 2 ^ 1075 = 2 * (c * 10 ^ e.toNat * Rank.one) := by
    rw [Rank.one, Nat.pow_eq, Nat.pow_succ]
    ring
  rw [← htwo]
  exact mul_two_pow_lt_of_low h

/-- A numeral that is read as a rank below `r` has a value below the size of `r`. -/
theorem below_of_rank_lt {n : Numeral} {r b : ℕ} (h : n.rank < r) (hr : r ≤ Rank.limit)
    (hb : Rank.ticks r ≤ b * Rank.one) : n.Below b := by
  have hpos := ten_pow_pos (-n.exponent).toNat
  have hticks : 1 ≤ Rank.ticks r := Rank.ticks_pos (Nat.zero_lt_of_lt h)
  have hlt : n.coefficient * 10 ^ n.exponent.toNat * Rank.one <
      Rank.ticks r * 10 ^ (-n.exponent).toNat := by
    unfold rank at h
    split_ifs at h with hzero hhigh hlow
    · rw [hzero, Nat.zero_mul, Nat.zero_mul]
      exact Nat.mul_pos hticks hpos
    · omega
    · exact lt_of_lt_of_le (mul_one_lt_of_low hlow) (Nat.le_mul_of_pos_left _ hticks)
    · rw [Nat.pow_eq, Nat.pow_eq] at h
      by_contra hge
      exact absurd (Rank.le_nearest hpos (not_lt.mp hge)) (not_le.mpr h)
  have hone : n.coefficient * 10 ^ n.exponent.toNat * Rank.one <
      b * 10 ^ (-n.exponent).toNat * Rank.one := by
    calc _ < Rank.ticks r * 10 ^ (-n.exponent).toNat := hlt
      _ ≤ b * Rank.one * 10 ^ (-n.exponent).toNat := Nat.mul_le_mul_right _ hb
      _ = b * 10 ^ (-n.exponent).toNat * Rank.one := by ring
  exact Nat.lt_of_mul_lt_mul_right hone

/-- A numeral of a finite double has at most 309 places in front of the point. -/
theorem below_of_rank_lt_limit {n : Numeral} (h : n.rank < Rank.limit) : n.Below (10 ^ 309) := by
  have hbound : 2 ^ 1024 ≤ 10 ^ 309 := by
    calc 2 ^ 1024 = (2 ^ 93) ^ 11 * 2 := by rw [← Nat.pow_mul, ← Nat.pow_succ]
      _ ≤ (10 ^ 28) ^ 11 * 10 :=
          Nat.mul_le_mul (Nat.pow_le_pow_left (by decide) 11) (by decide)
      _ = 10 ^ 309 := by rw [← Nat.pow_mul, ← Nat.pow_succ]
  have hticks : Rank.ticks Rank.limit = 2 ^ 1024 * Rank.one := by
    have hlimit : Rank.limit = 2046 * Rank.binade + Rank.binade := by decide
    have hpos := Rank.binade_pos
    rw [hlimit, Rank.ticks_mul_add (.inr le_rfl) (by omega), Rank.one, Nat.pow_eq, ← Nat.pow_add,
      Rank.binade_eq, ← Nat.pow_add]
  exact below_of_rank_lt h le_rfl (hticks.trans_le (Nat.mul_le_mul_right _ hbound))

/-- A numeral with a value of at most the largest finite double is read as a finite double. -/
theorem Below.rank_lt {n : Numeral} {b : ℕ} (h : n.Below b) (hexp : n.exponent ≤ 400)
    (hb : b ≤ Rank.greatestWhole) : n.rank < Rank.limit := by
  have hlimit : 0 < Rank.limit := Nat.mul_pos (by decide) Rank.binade_pos
  unfold rank
  split_ifs with hzero hhigh
  · exact hlimit
  · omega
  · exact hlimit
  · rw [Rank.lt_limit_iff, Nat.pow_eq, Nat.pow_eq]
    apply Rank.nearest_le (ten_pow_pos _)
    rw [Rank.ticks_limit_pred]
    calc n.coefficient * 10 ^ n.exponent.toNat * Rank.one
        ≤ b * 10 ^ (-n.exponent).toNat * Rank.one := Nat.mul_le_mul_right _ (le_of_lt h)
      _ ≤ Rank.greatestWhole * 10 ^ (-n.exponent).toNat * Rank.one := by gcongr
      _ = Rank.greatestWhole * Rank.one * 10 ^ (-n.exponent).toNat := by ring

/-- The coefficient of a numeral below a number is bounded by its places. -/
theorem Below.coefficient_lt {n : Numeral} {b k : ℕ} (h : n.Below b) (hexp : -n.exponent ≤ k) :
    n.coefficient < b * 10 ^ k := by
  calc n.coefficient ≤ n.coefficient * 10 ^ n.exponent.toNat :=
        Nat.le_mul_of_pos_right _ (ten_pow_pos _)
    _ < b * 10 ^ (-n.exponent).toNat := h
    _ ≤ b * 10 ^ k := by gcongr <;> omega

/-! ## Rounding and the value -/

/-- Rounding half up goes up by less than one. -/
theorem divHalfUp_le (a b : ℕ) (hb : 0 < b) : (divHalfUp a b - 1) * b ≤ a := by
  have hdiv := Nat.div_mul_le_self (2 * a + b) (2 * b)
  unfold divHalfUp
  generalize (2 * a + b) / (2 * b) = q at hdiv
  cases q with
  | zero => simp
  | succ q =>
    rw [Nat.add_sub_cancel]
    nlinarith

/-- Rounding to decimal places adds less than one unit of the last place that is kept. -/
theorem Below.toPlaces {n : Numeral} {b : ℕ} (h : n.Below b) (places : ℤ) :
    (n.toPlaces places).Below (b + 10 ^ (-places).toNat) := by
  obtain ⟨c, e⟩ := n
  have hpos := ten_pow_pos places.toNat
  unfold Below at h
  simp only at h
  unfold Numeral.toPlaces
  simp only [Nat.pow_eq]
  split_ifs with hshift
  · -- The value stays the same, so both sides are compared after a common factor.
    have hpow : 10 ^ (e + places).toNat * 10 ^ (-places).toNat * 10 ^ (-e).toNat =
        10 ^ e.toNat * 10 ^ places.toNat := by
      rw [← Nat.pow_add, ← Nat.pow_add, ← Nat.pow_add]
      congr 1
      omega
    have hlt : c * 10 ^ (e + places).toNat * 10 ^ (-places).toNat < b * 10 ^ places.toNat := by
      apply Nat.lt_of_mul_lt_mul_right (a := 10 ^ (-e).toNat)
      calc c * 10 ^ (e + places).toNat * 10 ^ (-places).toNat * 10 ^ (-e).toNat
          = c * 10 ^ e.toNat * 10 ^ places.toNat := by rw [mul_assoc c, mul_assoc c, hpow]; ring
        _ < b * 10 ^ (-e).toNat * 10 ^ places.toNat := Nat.mul_lt_mul_of_pos_right h hpos
        _ = b * 10 ^ places.toNat * 10 ^ (-e).toNat := by ring
    show c * 10 ^ (e + places).toNat * 10 ^ (-places).toNat <
      (b + 10 ^ (-places).toNat) * 10 ^ (- -places).toNat
    rw [Int.neg_neg, Nat.add_mul]
    exact Nat.lt_add_right _ hlt
  · -- The coefficient is divided, and rounding up adds at most one to it.
    have hdiv := divHalfUp_le c (10 ^ (-(e + places)).toNat) (ten_pow_pos _)
    generalize hq : divHalfUp c (10 ^ (-(e + places)).toNat) = q at hdiv ⊢
    have hpow : 10 ^ (-(e + places)).toNat * 10 ^ e.toNat * 10 ^ places.toNat =
        10 ^ (-e).toNat * 10 ^ (-places).toNat := by
      rw [← Nat.pow_add, ← Nat.pow_add, ← Nat.pow_add]
      congr 1
      omega
    have hlt : (q - 1) * 10 ^ (-places).toNat < b * 10 ^ places.toNat := by
      apply Nat.lt_of_mul_lt_mul_right (a := 10 ^ (-e).toNat)
      calc (q - 1) * 10 ^ (-places).toNat * 10 ^ (-e).toNat
          = (q - 1) * 10 ^ (-(e + places)).toNat * 10 ^ e.toNat * 10 ^ places.toNat := by
            rw [mul_assoc, mul_comm (10 ^ (-places).toNat), ← hpow]; ring
        _ ≤ c * 10 ^ e.toNat * 10 ^ places.toNat := by gcongr
        _ < b * 10 ^ (-e).toNat * 10 ^ places.toNat := Nat.mul_lt_mul_of_pos_right h hpos
        _ = b * 10 ^ places.toNat * 10 ^ (-e).toNat := by ring
    show q * 10 ^ (-places).toNat < (b + 10 ^ (-places).toNat) * 10 ^ (- -places).toNat
    rw [Int.neg_neg]
    calc q * 10 ^ (-places).toNat ≤ (q - 1 + 1) * 10 ^ (-places).toNat :=
          Nat.mul_le_mul_right _ (by omega)
      _ = (q - 1) * 10 ^ (-places).toNat + 10 ^ (-places).toNat := by ring
      _ < b * 10 ^ places.toNat + 10 ^ (-places).toNat * 10 ^ places.toNat :=
          Nat.add_lt_add_of_lt_of_le hlt (Nat.le_mul_of_pos_right _ hpos)
      _ = (b + 10 ^ (-places).toNat) * 10 ^ places.toNat := by ring

/-! ## The shortest numeral of a large double -/

/-- A size in the upper half of the gap below a rank is rounded to the rank. -/
theorem nearest_of_near {r q : ℕ} (hlow : Rank.ticks r + Rank.ticks (r + 1) < 2 * q)
    (hhigh : q ≤ Rank.ticks (r + 1)) : Rank.nearest q 1 = r + 1 := by
  have hstep := Rank.ticks_lt_succ r
  rcases Nat.lt_or_ge q (Rank.ticks (r + 1)) with hlt | hge
  · have hbelow : Rank.below q = r := by
      apply le_antisymm
      · rw [← Nat.lt_succ_iff, ← not_le, Rank.le_below_iff]
        exact not_le.mpr hlt
      · rw [Rank.le_below_iff]
        omega
    unfold Rank.nearest
    simp only [Nat.div_one, Nat.one_mul, hbelow]
    rw [Nat.compare_eq_gt.mpr hlow]
    rfl
  · have hq := le_antisymm hhigh hge
    have hround := Rank.nearest_ticks (r + 1) Nat.one_pos
    rwa [Nat.mul_one, ← hq] at hround

/-- The numeral found at a power of ten has that exponent. -/
theorem exponent_of_atPower {r : ℕ} {e : ℤ} {n : Numeral} (h : atPower r e = some n) :
    n.exponent = e := by
  unfold atPower at h
  generalize Rank.ticks r * Nat.pow 10 (-e).toNat = num at h
  generalize Rank.one * Nat.pow 10 e.toNat = den at h
  simp only at h
  split_ifs at h <;> obtain rfl := Option.some.inj h <;> rfl

/-- If the lower multiple of a power of ten reads back as the rank, a numeral is found there. -/
theorem exists_atPower {r k : ℕ} (h : (Numeral.mk (Rank.ticks r / (Rank.one * 10 ^ k)) k).rank = r) :
    ∃ n, atPower r k = some n := by
  unfold atPower
  rw [show (-(k : ℤ)).toNat = 0 by omega, Int.toNat_natCast, Nat.pow_eq, Nat.pow_eq, Nat.pow_zero,
    Nat.mul_one]
  simp only [h, if_true]
  split_ifs
  · exact ⟨_, rfl⟩
  · exact ⟨_, rfl⟩

/-- Of neighbouring multiples of a size that is at most half the gap below a rank, the greatest of at
most the size of the rank is rounded to the rank. -/
theorem nearest_multiple {r d : ℕ} (hd : 0 < d) (hgap : 2 * d ≤ 2 ^ Rank.scale r) :
    Rank.ticks (r + 1) / d ≠ 0 ∧ Rank.nearest (Rank.ticks (r + 1) / d * d) 1 = r + 1 := by
  have hticks := Rank.ticks_succ r
  have hlow := Nat.div_mul_le_self (Rank.ticks (r + 1)) d
  have hhigh := Nat.lt_div_mul_add hd (a := Rank.ticks (r + 1))
  constructor
  · intro h
    rw [h] at hhigh
    omega
  · exact nearest_of_near (by omega) hlow

/-- Where neighbouring multiples of a power of ten are closer than half the gap below a double, one
of them reads back as the double. -/
theorem exists_atPower_of_gap {r k : ℕ} (hk : k ≤ 400)
    (hgap : 2 * (Rank.one * 10 ^ k) ≤ 2 ^ Rank.scale r) : ∃ n, atPower (r + 1) k = some n := by
  have hd : 0 < Rank.one * 10 ^ k := Nat.mul_pos Rank.one_pos (ten_pow_pos k)
  obtain ⟨hc, hround⟩ := nearest_multiple hd hgap
  apply exists_atPower
  rw [rank_eq_nearest hc (by simp only; omega) (by simp only; omega)]
  simp only [Int.toNat_natCast, show (-(k : ℤ)).toNat = 0 by omega, Nat.pow_zero]
  rwa [Nat.mul_assoc, Nat.mul_comm (10 ^ k)]

/-- Far up, every double has a numeral without its last fifteen digits. -/
theorem exists_atPower_fifteen {r : ℕ} (hr : 1126 * Rank.binade < r) :
    ∃ n, atPower r (15 : ℕ) = some n := by
  obtain ⟨s, rfl⟩ : ∃ s, r = s + 1 := ⟨r - 1, by omega⟩
  have hscale : 1125 ≤ Rank.scale s := by
    have hdiv : 1126 ≤ s / Rank.binade := (Nat.le_div_iff_mul_le Rank.binade_pos).mpr (by omega)
    unfold Rank.scale
    omega
  apply exists_atPower_of_gap (by decide)
  calc 2 * (Rank.one * 10 ^ 15) ≤ 2 * (Rank.one * 2 ^ 50) :=
        Nat.mul_le_mul_left 2 (Nat.mul_le_mul_left Rank.one (by norm_num))
    _ = 2 ^ 1125 := by rw [Rank.one, Nat.pow_eq, ← Nat.pow_add, ← Nat.pow_succ']
    _ ≤ 2 ^ Rank.scale s := Nat.pow_le_pow_right (by decide) hscale

/-- The search stops at the latest where it has a hit. -/
theorem le_exponent_search_of_atPower {r j : ℕ} {m : Numeral}
    (hm : atPower r ((j : ℤ) - 1073) = some m) {k : ℕ} (hk : j < k) :
    (j : ℤ) - 1073 ≤ (search r k).exponent := by
  induction k, hk using Nat.le_induction with
  | base => rw [search, hm, Option.getD_some, exponent_of_atPower hm]
  | succ k hk ih =>
    rw [search]
    cases h : atPower r ((k : ℤ) - 1073) with
    | none => exact ih
    | some n =>
      rw [Option.getD_some, exponent_of_atPower h]
      omega

/-- The search for the shortest numeral of a large double stops at a multiple of `10 ^ 15`. -/
theorem le_exponent_search {r k : ℕ} (hr : 1126 * Rank.binade < r) (hk : 1089 ≤ k) :
    15 ≤ (search r k).exponent := by
  obtain ⟨n, hn⟩ := exists_atPower_fifteen hr
  have hpower : ((1088 : ℕ) : ℤ) - 1073 = (15 : ℕ) := by norm_num
  rw [← hpower] at hn
  have hle := le_exponent_search_of_atPower hn hk
  omega

/-! ## Rounded numerals are finite -/

/-- A numeral rounded to places has that many. -/
theorem exponent_toPlaces (n : Numeral) (places : ℤ) : (n.toPlaces places).exponent = -places := by
  unfold toPlaces
  simp only
  split_ifs <;> rfl

/-- The rank of a positive finite double is found by rounding. -/
theorem unsettled_of_rank {n : Numeral} (h0 : 0 < n.rank) (hlimit : n.rank < Rank.limit) :
    n.coefficient ≠ 0 ∧ n.exponent ≤ 400 ∧ 0 ≤ 3 * n.exponent + n.coefficient.log2 + 1081 := by
  unfold rank at h0 hlimit
  split_ifs at h0 hlimit with hzero hhigh hlow
  · omega
  · omega
  · omega
  · exact ⟨hzero, by omega, by omega⟩

/-- A numeral that has no digits beyond those that are kept has the same rank after rounding. -/
theorem rank_toPlaces_of_nonneg {n : Numeral} {places : ℤ} (hplaces : places.natAbs ≤ 15)
    (h0 : 0 < n.rank) (hlimit : n.rank < Rank.limit) (hshift : 0 ≤ n.exponent + places) :
    (n.toPlaces places).rank = n.rank := by
  obtain ⟨hc, hhigh, hlow⟩ := unsettled_of_rank h0 hlimit
  have hround : n.toPlaces places = ⟨n.coefficient * 10 ^ (n.exponent + places).toNat, -places⟩ := by
    unfold toPlaces
    simp only [Nat.pow_eq]
    rw [if_pos hshift]
  rw [hround]
  have hc' : n.coefficient * 10 ^ (n.exponent + places).toNat ≠ 0 :=
    Nat.mul_ne_zero hc (ten_pow_pos _).ne'
  refine rank_congr hc' hc (by simp only; omega) (by simp only; omega) hhigh hlow ?_
  simp only [Int.neg_neg, Nat.mul_assoc, ← Nat.pow_add]
  congr 2
  omega

/-- The shortest numeral of a finite double, rounded to at most fifteen places, is finite. -/
theorem rank_toPlaces_shortest_lt {r : ℕ} (hr : r < Rank.limit) {places : ℤ}
    (hplaces : places.natAbs ≤ 15) : ((shortest r).toPlaces places).rank < Rank.limit := by
  have hrank := rank_shortest r
  by_cases hshift : 0 < r ∧ 0 ≤ (shortest r).exponent + places
  · rw [rank_toPlaces_of_nonneg hplaces (by omega) (by omega) hshift.2, hrank]
    exact hr
  · have hsmall : r < 1126 * Rank.binade + 1 := by
      by_contra hlarge
      have hpos : r ≠ 0 := by omega
      have hexp : 15 ≤ (shortest r).exponent := by
        rw [shortest, if_neg hpos]
        exact le_exponent_search (by omega) (by decide)
      omega
    have hticks : Rank.ticks (1126 * Rank.binade + 1) ≤ 2 ^ 104 * Rank.one := by
      have hpos := Rank.binade_pos
      have hrank : 1126 * Rank.binade + 1 = 1125 * Rank.binade + (Rank.binade + 1) := by ring
      rw [hrank, Rank.ticks_mul_add (.inr (by omega)) (by rw [Rank.binade_eq]; norm_num),
        Rank.one, Nat.pow_eq, ← Nat.pow_add]
      calc (Rank.binade + 1) * 2 ^ 1125 ≤ 2 ^ 53 * 2 ^ 1125 := by
            gcongr
            rw [Rank.binade_eq]
            norm_num
        _ = 2 ^ (104 + 1074) := by rw [← Nat.pow_add]
    have hlimit : 1126 * Rank.binade + 1 ≤ Rank.limit := by decide
    have hbelow := (below_of_rank_lt (hrank ▸ hsmall) hlimit hticks).toPlaces places
    apply hbelow.rank_lt
    · rw [exponent_toPlaces]
      omega
    · have hpow : 10 ^ (-places).toNat ≤ 10 ^ 15 := Nat.pow_le_pow_right (by decide) (by omega)
      calc 2 ^ 104 + 10 ^ (-places).toNat ≤ 2 ^ 104 + 10 ^ 15 := Nat.add_le_add_left hpow _
        _ ≤ 2 ^ 971 :=
            le_trans (b := 2 ^ 105) (by decide) (Nat.pow_le_pow_right (by decide) (by decide))
        _ ≤ Rank.greatestWhole := by
          unfold Rank.greatestWhole
          generalize 2 ^ 971 = b
          exact Nat.le_mul_of_pos_left b (by decide)

/-- The shortest numeral of a finite double, rounded to at most fifteen places, is short enough. -/
theorem coefficient_toPlaces_shortest_lt {r : ℕ} (hr : r < Rank.limit) {places : ℤ}
    (hplaces : places.natAbs ≤ 15) :
    ((shortest r).toPlaces places).coefficient < 10 ^ maxDigits := by
  have hrank : (shortest r).rank < Rank.limit := (rank_shortest r).symm ▸ hr
  have hbelow := (below_of_rank_lt_limit hrank).toPlaces places
  have hexp : -((shortest r).toPlaces places).exponent ≤ (15 : ℕ) := by
    rw [exponent_toPlaces]
    omega
  have hsum : 10 ^ 309 + 10 ^ (-places).toNat ≤ 10 ^ 309 * 10 := by
    have hpow : 10 ^ (-places).toNat ≤ 10 ^ 309 := Nat.pow_le_pow_right (by decide) (by omega)
    generalize 10 ^ 309 = b at hpow ⊢
    omega
  calc ((shortest r).toPlaces places).coefficient
      < (10 ^ 309 + 10 ^ (-places).toNat) * 10 ^ 15 := hbelow.coefficient_lt hexp
    _ ≤ 10 ^ 309 * 10 * 10 ^ 15 := Nat.mul_le_mul_right _ hsum
    _ = 10 ^ 325 := by rw [← Nat.pow_succ, ← Nat.pow_add]
    _ ≤ 10 ^ maxDigits := Nat.pow_le_pow_right (by decide) (by decide)

end Numeral

namespace Finite

variable {places : ℤ}

/-- A finite double rounded to at most fifteen decimal places. -/
def rounded (x : Finite) (h : places.natAbs ≤ 15) : Finite where
  negative := x.negative
  rank := ((Numeral.shortest x.rank).toPlaces places).rank
  rank_lt := Numeral.rank_toPlaces_shortest_lt x.rank_lt h

/-- Rounding a finite double to at most fifteen places gives a finite double. -/
theorem toPlaces?_eq (x : Finite) (h : places.natAbs ≤ 15) :
    x.toPlaces? places = some (.finite (x.rounded h)) := by
  have hdigits := Numeral.coefficient_toPlaces_shortest_lt x.rank_lt h
  have hrank := Numeral.rank_toPlaces_shortest_lt x.rank_lt h
  unfold toPlaces?
  simp only [Nat.pow_eq]
  rw [if_pos hdigits, Numeral.toDouble, Double.ofRank_of_lt hrank, rounded]

/-- Whether a double is a number of decimal places that can be rounded to; a negative one counts
them before the point. -/
structure IsPlaces (p : Finite) (places : ℤ) : Prop where
  value : p.toRat = places
  low : -15 ≤ places
  high : places ≤ 15

/-- A number of places is at most fifteen. -/
theorem IsPlaces.natAbs_le {p : Finite} (h : p.IsPlaces places) : places.natAbs ≤ 15 := by
  have hlow := h.low
  have hhigh := h.high
  omega

end Finite

namespace Builtin

variable {p : Finite}

/-- Rounding by a number of places gives the double rounded to them. -/
theorem roundTo_of_isPlaces (x : Finite) {places : ℤ} (h : p.IsPlaces places) :
    roundTo (.finite x) (.finite p) = .ok (.finite (x.rounded h.natAbs_le)) := by
  have hrange : ¬maxPlaces < p.floor.natAbs := by
    have hle := h.natAbs_le
    rw [Finite.floor_of_toRat h.value, maxPlaces]
    omega
  unfold roundTo
  simp only
  rw [if_pos (Finite.isWhole_iff.mpr ⟨places, h.value⟩), if_neg hrange,
    Finite.floor_of_toRat h.value, x.toPlaces?_eq h.natAbs_le]

/-- What is no number of places is refused, either because it is not whole or because it is out of
range. -/
theorem roundTo_of_not_isPlaces (x : Double) (h : ∀ places, ¬p.IsPlaces places) :
    roundTo x (.finite p) =
      .error (.call (if p.isWhole then .placesOutOfRange else .placesNotWhole)) := by
  unfold roundTo
  simp only
  split_ifs with hwhole hrange
  · rfl
  · obtain ⟨places, hvalue⟩ := Finite.isWhole_iff.mp hwhole
    rw [Finite.floor_of_toRat hvalue, maxPlaces] at hrange
    exact absurd ⟨hvalue, by omega, by omega⟩ (h places)
  · rfl

end Builtin

end PayrollFormula
