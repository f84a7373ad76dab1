import PayrollFormula.Eval.Comparison
import PayrollFormula.Proofs.Number.FewestDigits
import PayrollFormula.Proofs.Number.Order
import PayrollFormula.Proofs.Number.Signs

/-!
# Closeness

Whether two finite numbers are close does not depend on their order (`isClose_comm`), since their
distance does not, even where it overflows. Numbers that are close stay so when the tolerances are
raised (`isClose_mono`), although an infinite relative tolerance times zero is undefined: a finite
one times zero makes close only what is equal.
-/

set_option autoImplicit false

namespace PayrollFormula

/-- Negation changes the sign of the ticks. -/
theorem Finite.ticks_neg (x : Finite) : x.neg.ticks = -x.ticks := by
  unfold ticks neg magnitude
  cases x.negative <;> simp

namespace Double

/-! ## Magnitudes of rounded numbers -/

/-- The absolute value of a rank with a sign has none. -/
theorem abs_ofRank (s : Bool) (r : ℕ) : (ofRank s r).abs = ofRank false r := by
  unfold ofRank
  split_ifs <;> rfl

/-- The absolute value of a rounded number is the rounded magnitude. -/
theorem abs_round (s : Bool) (num den : ℕ) : (round s num den).abs = round false num den :=
  abs_ofRank s _

/-- No rank is that of an undefined number. -/
theorem ofRank_ne_nan (s : Bool) (r : ℕ) : ofRank s r ≠ .nan := by
  unfold ofRank
  split_ifs <;> simp

/-- Of finite ranks, the smaller belongs to the smaller double. -/
theorem ofRank_le_iff {r r' : ℕ} (h : r' < Rank.limit) :
    (ofRank false r).le (ofRank false r') = true ↔ r ≤ r' := by
  rw [ofRank_of_lt h]
  by_cases hr : r < Rank.limit
  · rw [ofRank_of_lt hr, le_finite_iff, ← Rank.ticks_strictMono.le_iff_le]
    exact Int.ofNat_le
  · have hinfinite : ofRank false r = .infinite false := dif_neg hr
    rw [hinfinite]
    refine ⟨fun hle => ?_, fun hle => absurd (hle.trans_lt h) hr⟩
    cases hle

/-- A greater rank belongs to a double that is no smaller. -/
theorem ofRank_mono {r r' : ℕ} (h : r ≤ r') : (ofRank false r).le (ofRank false r') = true := by
  by_cases hr : r' < Rank.limit
  · exact (ofRank_le_iff hr).mpr h
  · have hinfinite : ofRank false r' = .infinite false := dif_neg hr
    rw [hinfinite]
    exact le_infinite (ofRank_ne_nan _ _)

/-- Above zero, the smaller double has the smaller magnitude. -/
theorem magnitude_le_of_le {x y : Finite} (hx : (finite x).belowZero = false)
    (h : (finite x).le (finite y) = true) : x.magnitude ≤ y.magnitude := by
  rw [belowZero_finite, decide_eq_false_iff_not] at hx
  rw [le_finite_iff] at h
  rw [← Finite.natAbs_ticks, ← Finite.natAbs_ticks]
  omega

/-! ## Distances -/

/-- The distance of two doubles is the exact one, rounded. -/
theorem abs_sub (x y : Finite) :
    ((finite x).sub (finite y)).abs = round false (x.ticks - y.ticks).natAbs 1 := by
  unfold sub add neg
  simp only [Finite.ticks_neg, ← Int.sub_eq_add_neg]
  split_ifs with h
  · rw [h, Int.natAbs_zero, round_zero false Nat.one_pos]
    rfl
  · exact abs_round _ _ _

/-- The distance of two doubles is the same both ways. -/
theorem abs_sub_comm (x y : Finite) :
    ((finite x).sub (finite y)).abs = ((finite y).sub (finite x)).abs := by
  rw [abs_sub, abs_sub, ← Int.natAbs_neg, neg_sub]

/-- Numbers at no distance are equal, since no difference of two numbers is rounded to zero. -/
theorem numEq_of_abs_sub_le {x y : Finite} (h : ((finite x).sub (finite y)).abs.le zero = true) :
    (finite x).numEq (finite y) = true := by
  have hrank : Rank.nearest (x.ticks - y.ticks).natAbs 1 ≤ 0 := by
    rw [abs_sub] at h
    exact (ofRank_le_iff (show 0 < Rank.limit by decide)).mp h
  simp only [numEq, decide_eq_true_eq]
  by_contra hne
  have hpos : Rank.ticks 1 * 1 ≤ (x.ticks - y.ticks).natAbs := by
    rw [Rank.ticks_eq_self (by decide)]
    omega
  exact absurd (Rank.le_nearest Nat.one_pos hpos) (by omega)

/-- What is at most a tolerance times a number stays so when the tolerance is raised, unless it is
zero at most. -/
theorem le_abs_mul_or_le_zero {d r r' : Double} {y : Finite} (hr : r.belowZero = false)
    (hrr' : r.le r' = true) (h : d.le (r.mul (finite y)).abs = true) :
    d.le (r'.mul (finite y)).abs = true ∨ d.le zero = true := by
  cases r with
  | nan => cases hrr'
  | infinite s =>
    -- Above an infinite tolerance there is only itself.
    cases s with
    | true => cases hr
    | false =>
      cases r' with
      | infinite s' =>
        cases s' with
        | false => exact .inl h
        | true => cases hrr'
      | finite | nan => cases hrr'
  | finite r =>
    cases r' with
    | nan => cases hrr'
    | infinite s' =>
      cases s' with
      | true => cases hrr'
      | false =>
        by_cases hy : y.rank = 0
        · obtain ⟨t, ht⟩ := (mul_zeroOf r y.negative).1
          rw [Finite.eq_zeroOf hy, ht] at h
          exact .inr h
        · have hinfinite : ((infinite false).mul (finite y)).abs = .infinite false := by
            simp [mul, isZero, hy, abs]
          rw [hinfinite]
          refine .inl (le_infinite ?_)
          rintro rfl
          cases h
    | finite r' =>
      refine .inl (le_trans h ?_)
      simp only [mul, abs_round]
      exact ofRank_mono (Rank.nearest_mono (Nat.mul_le_mul_right _ (magnitude_le_of_le hr hrr')) _)

end Double

/-! ## Closeness of finite numbers -/

section Closeness

variable {t t' : Tolerances} {x y : Finite}

/-- Finite doubles are close if they are equal or their distance is within one of the tolerances. -/
theorem isClose_finite (t : Tolerances) (x y : Finite) :
    isClose t (.finite x) (.finite y) =
      ((Double.finite x).numEq (.finite y) ||
        (((Double.finite y).sub (.finite x)).abs.le (t.relative.mul (.finite y)).abs ||
          ((Double.finite y).sub (.finite x)).abs.le (t.relative.mul (.finite x)).abs ||
          ((Double.finite y).sub (.finite x)).abs.le t.absolute)) := by
  unfold isClose
  cases (Double.finite x).numEq (.finite y) <;> rfl

/-- Whether two finite doubles are close is the same both ways. -/
theorem isClose_comm : isClose t (.finite x) (.finite y) = isClose t (.finite y) (.finite x) := by
  rw [isClose_finite, isClose_finite, Double.numEq_comm, Double.abs_sub_comm,
    Bool.or_comm (((Double.finite x).sub (.finite y)).abs.le (t.relative.mul (.finite y)).abs)]

/-- Numbers that are close under some tolerances are close under greater ones. -/
theorem isClose_mono (hrelative : t.relative.le t'.relative = true)
    (habsolute : t.absolute.le t'.absolute = true)
    (h : isClose t (.finite x) (.finite y) = true) :
    isClose t' (.finite x) (.finite y) = true := by
  have hequal (hzero : ((Double.finite y).sub (.finite x)).abs.le .zero = true) :
      (Double.finite x).numEq (.finite y) = true := by
    rw [Double.numEq_comm]
    exact Double.numEq_of_abs_sub_le hzero
  rw [isClose_finite] at h ⊢
  simp only [Bool.or_eq_true] at h ⊢
  rcases h with h | (h | h) | h
  · exact .inl h
  · rcases Double.le_abs_mul_or_le_zero t.relative_nonneg hrelative h with h | h
    · exact .inr (.inl (.inl h))
    · exact .inl (hequal h)
  · rcases Double.le_abs_mul_or_le_zero t.relative_nonneg hrelative h with h | h
    · exact .inr (.inl (.inr h))
    · exact .inl (hequal h)
  · exact .inr (.inr (Double.le_trans h habsolute))

/-- One number is below another or close to it if it is not above it and apart from it. -/
theorem lt_or_isClose (t : Tolerances) (x y : Finite) :
    ((Double.finite x).lt (.finite y) || isClose t (.finite x) (.finite y)) =
      !((Double.finite y).lt (.finite x) && !isClose t (.finite x) (.finite y)) := by
  cases hclose : isClose t (.finite x) (.finite y) with
  | true => simp
  | false =>
    have hne : (Double.finite x).numEq (.finite y) = false := by
      rw [isClose_finite, Bool.or_eq_false_iff] at hclose
      exact hclose.1
    simp [Double.lt_eq_not_lt hne]

/-- Numbers are close, or else exactly one of them is below the other. -/
theorem count_relations (t : Tolerances) (x y : Finite) :
    [(Double.finite x).lt (.finite y) && !isClose t (.finite x) (.finite y),
      isClose t (.finite x) (.finite y),
      (Double.finite y).lt (.finite x) && !isClose t (.finite x) (.finite y)].count true = 1 := by
  have hone := lt_or_isClose t x y
  revert hone
  cases isClose t (.finite x) (.finite y) <;> cases (Double.finite x).lt (.finite y) <;>
    cases (Double.finite y).lt (.finite x) <;> decide

end Closeness

end PayrollFormula
