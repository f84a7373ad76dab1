import PayrollFormula.Number.Double

/-!
# The order of doubles

Of two doubles that are not undefined, one is at most the other or above it. The undefined number
is neither, so it is not below zero and zero is not at most it (`Double.zero_le_iff`). Finite
doubles are ordered by their sizes in ticks (`Double.le_finite_iff`), and of two that are not equal
exactly one is below the other (`Double.lt_eq_not_lt`).
-/

set_option autoImplicit false

namespace PayrollFormula

namespace Double

/-- A defined bound is at most a finite double exactly if the double is not below it. -/
theorem le_finite {x : Finite} {b : Double} (hb : b ≠ .nan) :
    b.le (.finite x) = !(Double.finite x).lt b := by
  cases b with
  | nan => exact absurd rfl hb
  | infinite s => cases s <;> rfl
  | finite y =>
    simp only [le, lt, numEq, ← Bool.decide_or, ← decide_not]
    exact decide_eq_decide.mpr (by omega)

/-- A finite double is at most a defined bound exactly if the bound is not below it. -/
theorem finite_le {x : Finite} {b : Double} (hb : b ≠ .nan) :
    (Double.finite x).le b = !b.lt (.finite x) := by
  cases b with
  | nan => exact absurd rfl hb
  | infinite s => cases s <;> rfl
  | finite y =>
    simp only [le, lt, numEq, ← Bool.decide_or, ← decide_not]
    exact decide_eq_decide.mpr (by omega)

/-- The order of finite doubles is that of their ticks. -/
theorem le_finite_iff {x y : Finite} : (finite x).le (finite y) = true ↔ x.ticks ≤ y.ticks := by
  rw [finite_le (by simp), lt]
  simp

/-- Every number that is defined is at most infinity. -/
theorem le_infinite {x : Double} (h : x ≠ .nan) : x.le (.infinite false) = true := by
  cases x with
  | finite => rfl
  | infinite s => cases s <;> rfl
  | nan => exact absurd rfl h

/-- The order of doubles is transitive. -/
theorem le_trans {x y z : Double} (hxy : x.le y = true) (hyz : y.le z = true) :
    x.le z = true := by
  cases x <;> cases y <;> cases z <;> simp_all [le, lt, numEq] <;> grind

/-- Whether two doubles are equal is the same both ways. -/
theorem numEq_comm (x y : Double) : x.numEq y = y.numEq x := by
  cases x <;> cases y <;> simp only [numEq, eq_comm]

/-- Of two finite numbers that are not equal one is the less. -/
theorem lt_eq_not_lt {x y : Finite} (h : (finite x).numEq (finite y) = false) :
    (finite x).lt (finite y) = !(finite y).lt (finite x) := by
  simp only [numEq, lt, decide_eq_false_iff_not] at h ⊢
  rw [← decide_not]
  exact decide_eq_decide.mpr (by omega)

/-- A finite double is below zero exactly if its ticks are. -/
theorem belowZero_finite (x : Finite) : (Double.finite x).belowZero = decide (x.ticks < 0) := by
  have hzero : Finite.zero.ticks = 0 := by
    simp [Finite.ticks, Finite.magnitude, Finite.zero, Rank.ticks_zero]
  rw [belowZero, zero, lt, hzero]

/-- A number that is not below zero is at least zero unless it is undefined. -/
theorem zero_le_iff {x : Double} (h : x.belowZero = false) : zero.le x = true ↔ x ≠ .nan := by
  constructor
  · rintro hle rfl
    cases hle
  · intro hx
    have hlt : x.lt (.finite .zero) = false := h
    rw [zero, finite_le hx, hlt]
    rfl

/-- The double of an integer that is not below zero is not either. -/
theorem belowZero_of_ofInt {i : Int} {x : Double} (hi : 0 ≤ i) (h : ofInt i = .ok x) :
    x.belowZero = false := by
  have hsign : decide (i < 0) = false := decide_eq_false (Int.not_lt.mpr hi)
  unfold ofInt round ofRank at h
  rw [hsign] at h
  split at h
  · cases h
    exact belowZero_eq_false rfl
  · cases h

end Double

end PayrollFormula
