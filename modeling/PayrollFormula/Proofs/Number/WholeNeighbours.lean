import PayrollFormula.Proofs.Number.Closeness
import PayrollFormula.Proofs.Number.Length
import PayrollFormula.Proofs.Number.Rounding
import PayrollFormula.Proofs.Number.Signs

/-!
# The whole numbers next to a double

Rounding a finite double down or up gives the integer next to it, exactly: a double that is not
whole is below `2 ^ 52`, so the integers next to it are doubles too (`Finite.exists_rank_floor`).
Rounding it as a decimal number without places gives a number between the two
(`Builtin.apply_floor_ceil`), since that rounding keeps the order of doubles and leaves whole ones
alone (`Finite.rounded_of_isWhole`).
-/

set_option autoImplicit false

namespace PayrollFormula

/-! ## Integers that are doubles -/

/-- A rank with no more ticks than the greatest whole number is finite. -/
theorem Rank.lt_limit_of_ticks_le {r : ℕ} (h : ticks r ≤ greatestWhole * one) : r < limit := by
  rw [← ticks_limit_pred, ticks_strictMono.le_iff_le] at h
  exact lt_limit_iff.mpr h

/-- A whole number of at most `2 ^ 52` is the size of a rank. -/
theorem Rank.exists_ticks_eq {v : ℕ} (hv : v ≤ 2 ^ 52) : ∃ r < limit, ticks r = v * one := by
  have hwhole : 2 ^ 52 ≤ greatestWhole := by
    unfold greatestWhole
    exact Nat.le_trans (by decide) (Nat.le_mul_of_pos_right _ (Nat.two_pow_pos 971))
  rcases Nat.eq_zero_or_pos v with rfl | hpos
  · exact ⟨0, by decide, by rw [ticks_zero, Nat.zero_mul]⟩
  · have hlog : v.log2 < 53 := (Nat.log2_lt hpos.ne').mpr (by omega)
    have hdvd : 2 ^ (v.log2 - 52) ∣ v := by
      rw [show v.log2 - 52 = 0 by omega, Nat.pow_zero]
      exact Nat.one_dvd v
    have hticks := ticks_nearest_mul_one hpos.ne' hdvd
    refine ⟨_, lt_limit_of_ticks_le ?_, hticks⟩
    rw [hticks]
    exact Nat.mul_le_mul_right one (hv.trans hwhole)

/-- An integer that has the size of a rank is converted to a double without being rounded. -/
theorem Double.exists_ofInt_eq {i : ℤ} (h : ∃ r < Rank.limit, Rank.ticks r = i.natAbs * Rank.one) :
    ∃ y : Finite, ofInt i = .ok (.finite y) ∧ y.toRat = i := by
  obtain ⟨r, hr, hticks⟩ := h
  have hnearest : Rank.nearest (i.natAbs * Rank.one) 1 = r := by
    have hround := Rank.nearest_ticks r Nat.one_pos
    rwa [Nat.mul_one, hticks] at hround
  refine ⟨⟨decide (i < 0), r, hr⟩, ?_, ?_⟩
  · rw [ofInt, round, hnearest, ofRank_of_lt hr]
    rfl
  · rw [Finite.toRat_eq_intCast_iff, Finite.ticks, Finite.magnitude, hticks]
    push_cast
    by_cases hi : i < 0
    · rw [decide_eq_true hi, if_pos rfl, abs_of_neg hi, neg_mul, Int.neg_neg]
    · rw [decide_eq_false hi, if_neg Bool.false_ne_true, abs_of_nonneg (not_lt.mp hi)]

namespace Finite

variable {x y : Finite}

/-- A double that is not whole is below `2 ^ 52` in magnitude: the doubles from there on are whole
numbers apart. -/
theorem isWhole_or_magnitude_lt (x : Finite) :
    x.isWhole = true ∨ x.magnitude < 2 ^ 52 * Rank.one := by
  obtain ⟨s, m, hrank, hs, hm⟩ := Rank.exists_significand x.rank
  have hmagnitude : x.magnitude = m * 2 ^ s := by
    rw [magnitude, hrank, Rank.ticks_mul_add hs hm]
  have hone : Rank.one = 2 ^ 1074 := rfl
  rcases Nat.lt_or_ge s 1074 with hlt | hge
  · refine .inr ?_
    calc x.magnitude = m * 2 ^ s := hmagnitude
      _ < 2 * Rank.binade * 2 ^ s := Nat.mul_lt_mul_of_pos_right hm (Nat.two_pow_pos s)
      _ ≤ 2 * Rank.binade * 2 ^ 1073 :=
        Nat.mul_le_mul_left _ (Nat.pow_le_pow_right Nat.two_pos (Nat.le_of_lt_succ hlt))
      _ = 2 ^ 52 * Rank.one := by rw [hone, Rank.binade_eq, ← Nat.pow_succ', ← Nat.pow_add,
        ← Nat.pow_add]
  · refine .inl (decide_eq_true (Nat.dvd_iff_mod_eq_zero.mp ?_))
    rw [hmagnitude, hone]
    exact (Nat.pow_dvd_pow 2 hge).mul_left m

/-- The negation of a double has the negated value. -/
theorem toRat_neg (x : Finite) : x.neg.toRat = -x.toRat := by
  rw [toRat, toRat, ticks_neg, Int.cast_neg, neg_div]

/-- The floor of a double is that of its value. -/
theorem floor_eq (x : Finite) : x.floor = ⌊x.toRat⌋ :=
  (Rat.floor_intCast_div_natCast x.ticks Rank.one).symm

/-- The ceiling is the negated floor of the negation. -/
theorem ceil_eq_neg_floor_neg (x : Finite) : x.ceil = -x.neg.floor := by
  rw [ceil, floor, ticks_neg]

/-- The ceiling of a double is that of its value. -/
theorem ceil_eq (x : Finite) : x.ceil = ⌈x.toRat⌉ := by
  rw [ceil_eq_neg_floor_neg, floor_eq, toRat_neg, Int.floor_neg, neg_neg]

/-- The integer below a double has the size of a double. -/
theorem exists_rank_floor (x : Finite) :
    ∃ r < Rank.limit, Rank.ticks r = x.floor.natAbs * Rank.one := by
  rcases x.isWhole_or_magnitude_lt with hwhole | hsmall
  · obtain ⟨k, hk⟩ := isWhole_iff.mp hwhole
    refine ⟨x.rank, x.rank_lt, ?_⟩
    have hticks := congrArg Int.natAbs (toRat_eq_intCast_iff.mp hk)
    rw [natAbs_ticks, Int.natAbs_mul, Int.natAbs_natCast] at hticks
    rw [floor_of_toRat hk, ← hticks, magnitude]
  · refine Rank.exists_ticks_eq (natAbs_ediv_one_le ?_)
    rw [natAbs_ticks]
    exact hsmall.le

/-- The integer above a double has the size of a double. -/
theorem exists_rank_ceil (x : Finite) :
    ∃ r < Rank.limit, Rank.ticks r = x.ceil.natAbs * Rank.one := by
  rw [ceil_eq_neg_floor_neg, Int.natAbs_neg]
  exact x.neg.exists_rank_floor

/-- Doubles of one value are the same, but for the sign of zero. -/
theorem agrees_iff : (Double.finite x).Agrees (.finite y) ↔ x.toRat = y.toRat := by
  constructor
  · intro h
    have heq := h.numEq rfl
    rw [Double.numEq, decide_eq_true_eq] at heq
    rw [toRat, toRat, heq]
  · intro h
    have hticks : x.ticks = y.ticks := le_antisymm (toRat_le_iff.mp h.le) (toRat_le_iff.mp h.ge)
    have hrank : x.rank = y.rank := by
      apply Rank.ticks_strictMono.injective
      show x.magnitude = y.magnitude
      rw [← natAbs_ticks, ← natAbs_ticks, hticks]
    rcases Nat.eq_zero_or_pos x.rank with hzero | hpos
    · exact .inr ⟨decide_eq_true hzero, decide_eq_true (hrank ▸ hzero)⟩
    · -- Only zero has two signs.
      have hx : x.ticks < 0 ↔ x.negative = true := ticks_neg_iff.trans (and_iff_left hpos.ne')
      have hy : y.ticks < 0 ↔ y.negative = true :=
        ticks_neg_iff.trans (and_iff_left (hrank ▸ hpos.ne'))
      have hsign : x.negative = y.negative := Bool.eq_iff_iff.mpr (by rw [← hx, ← hy, hticks])
      exact .inl (congrArg _ ((Finite.mk.injEq _ _ _ _ _ _).mpr ⟨hsign, hrank⟩))

/-- A whole double is left alone by rounding to decimal places after the point. -/
theorem rounded_of_isWhole (hwhole : x.isWhole = true) {places : ℤ} (h : places.natAbs ≤ 15)
    (hplaces : 0 ≤ places) : x.rounded h = x := by
  obtain ⟨c, hc⟩ : Rank.one ∣ x.magnitude := Nat.dvd_of_mod_eq_zero (of_decide_eq_true hwhole)
  rw [Nat.mul_comm] at hc
  have hnumeral : (Numeral.mk c 0).rank = x.rank := by
    rcases Nat.eq_zero_or_pos c with rfl | hpos
    · rw [Nat.zero_mul, magnitude_eq_zero_iff] at hc
      rw [Numeral.rank_zero, hc]
    · have hnearest : (Numeral.mk c 0).rank = Rank.nearest (c * 1 * Rank.one) 1 :=
        Numeral.rank_eq_nearest hpos.ne' (by simp only; omega) (by simp only; omega)
      rw [hnearest, Nat.mul_one, ← hc, magnitude, ← Nat.mul_one (Rank.ticks x.rank)]
      exact Rank.nearest_ticks x.rank Nat.one_pos
  have hrank : ((Numeral.shortest (Numeral.mk c 0).rank).toPlaces places).rank =
      (Numeral.mk c 0).rank := by
    apply Numeral.rank_toPlaces_shortest_of_exponent _ h (hnumeral ▸ x.rank_lt)
    simp only
    omega
  rw [hnumeral] at hrank
  exact (Finite.mk.injEq _ _ _ _ _ _).mpr ⟨rfl, hrank⟩

end Finite

/-! ## The functions -/

namespace Builtin

/-- What rounding a finite double down, to the nearest and up to a whole number gives. The results
are doubles with these exact values, in this order. A whole double stays as it is, but for the sign
of zero, and rounding up is rounding the opposite down. -/
structure Encloses (x low near high : Finite) : Prop where
  floor : floor.apply [.finite x] = .ok (.finite low)
  ceil : ceil.apply [.finite x] = .ok (.finite high)
  round : ∀ s, round.apply [.finite x, .finite (.zeroOf s)] = .ok (.finite near)
  low_value : low.toRat = ⌊x.toRat⌋
  high_value : high.toRat = ⌈x.toRat⌉
  low_whole : (Double.finite low).Agrees (.finite x) ↔ x.isWhole = true
  high_whole : (Double.finite high).Agrees (.finite x) ↔ x.isWhole = true
  opposite : ∃ y : Finite, Builtin.floor.apply [.finite x.neg] = .ok (.finite y) ∧
    (Double.finite high).Agrees (.finite y.neg)
  low_le : low.toRat ≤ near.toRat
  le_high : near.toRat ≤ high.toRat

/-- The result of the floor function is a double with the exact floor for its value. -/
theorem apply_floor_eq (x : Finite) :
    ∃ y : Finite, floor.apply [.finite x] = .ok (.finite y) ∧ y.toRat = ⌊x.toRat⌋ := by
  obtain ⟨y, hy, hvalue⟩ := Double.exists_ofInt_eq x.exists_rank_floor
  exact ⟨y, whole_of_ofInt hy, by rw [hvalue, x.floor_eq]⟩

/-- The result of the ceiling function is a double with the exact ceiling for its value. -/
theorem apply_ceil_eq (x : Finite) :
    ∃ y : Finite, ceil.apply [.finite x] = .ok (.finite y) ∧ y.toRat = ⌈x.toRat⌉ := by
  obtain ⟨y, hy, hvalue⟩ := Double.exists_ofInt_eq x.exists_rank_ceil
  exact ⟨y, whole_of_ofInt hy, by rw [hvalue, x.ceil_eq]⟩

/-- Rounding down and up to whole numbers is exact on all finite doubles, and the nearest whole
number of a double is not outside of them. -/
theorem apply_floor_ceil (x : Finite) : ∃ low near high, Encloses x low near high := by
  obtain ⟨low, hfloor, hlow⟩ := apply_floor_eq x
  obtain ⟨high, hceil, hhigh⟩ := apply_ceil_eq x
  obtain ⟨y, hy, hopposite⟩ := apply_floor_eq x.neg
  have hplaces (s : Bool) : (Finite.zeroOf s).IsPlaces 0 :=
    ⟨by rw [Finite.toRat, Finite.ticks_zeroOf, Int.cast_zero, zero_div], by decide, by decide⟩
  have hnatAbs : (0 : ℤ).natAbs ≤ 15 := by decide
  have hround {z : Finite} {k : ℤ} (hz : z.toRat = k) : z.rounded hnatAbs = z :=
    Finite.rounded_of_isWhole (Finite.isWhole_iff.mpr ⟨k, hz⟩) hnatAbs le_rfl
  have hwhole : x.toRat ∈ Set.range Int.cast ↔ x.isWhole = true := by
    rw [Finite.isWhole_iff]
    exact exists_congr fun k => eq_comm
  refine ⟨low, x.rounded hnatAbs, high, ?_⟩
  exact {
    floor := hfloor
    ceil := hceil
    round := fun s => roundTo_of_isPlaces x (hplaces s)
    low_value := hlow
    high_value := hhigh
    low_whole := by rw [Finite.agrees_iff, hlow, Int.floor_eq_self_iff_mem, hwhole]
    high_whole := by rw [Finite.agrees_iff, hhigh, Int.ceil_eq_self_iff_mem, hwhole]
    opposite := ⟨y, hy, by
      rw [Finite.agrees_iff, Finite.toRat_neg, hhigh, hopposite, Finite.toRat_neg, Int.floor_neg,
        Int.cast_neg, neg_neg]⟩
    low_le := by
      have hle : low.toRat ≤ x.toRat := hlow ▸ Int.floor_le x.toRat
      have hmono := Finite.rounded_mono hnatAbs hle
      rwa [hround hlow] at hmono
    le_high := by
      have hle : x.toRat ≤ high.toRat := hhigh ▸ Int.le_ceil x.toRat
      have hmono := Finite.rounded_mono hnatAbs hle
      rwa [hround hhigh] at hmono }

end Builtin

end PayrollFormula
