import PayrollFormula.Eval.Comparison
import PayrollFormula.Proofs.Number.Places

/-!
# The sign of zero

There are two zeros, and which of them an operand is can be seen in a result only if that is a zero
itself. So the operations take numbers that agree up to the sign of zero (`Double.Agrees`) to
numbers that agree again, and comparisons do not tell such numbers apart. The one exception is a
division by zero, whose result is an infinity with a sign.
-/

set_option autoImplicit false

namespace PayrollFormula

namespace Finite

/-- The zero with a given sign. -/
def zeroOf (negative : Bool) : Finite := { zero with negative }

/-- Both zeros have a magnitude of zero. -/
@[simp] theorem magnitude_zeroOf (s : Bool) : (zeroOf s).magnitude = 0 := Rank.ticks_zero

/-- Both zeros have zero ticks. -/
@[simp] theorem ticks_zeroOf (s : Bool) : (zeroOf s).ticks = 0 := by
  cases s <;> simp [ticks]

/-- Both zeros have rank zero. -/
@[simp] theorem rank_zeroOf (s : Bool) : (zeroOf s).rank = 0 := rfl

/-- A zero has its sign. -/
@[simp] theorem negative_zeroOf (s : Bool) : (zeroOf s).negative = s := rfl

/-- The negation of a zero is the other. -/
@[simp] theorem neg_zeroOf (s : Bool) : (zeroOf s).neg = zeroOf !s := rfl

/-- The floor of both zeros is zero. -/
@[simp] theorem floor_zeroOf (s : Bool) : (zeroOf s).floor = 0 := by
  rw [floor, ticks_zeroOf, Int.zero_ediv]

/-- The ceiling of both zeros is zero. -/
@[simp] theorem ceil_zeroOf (s : Bool) : (zeroOf s).ceil = 0 := by
  rw [ceil, ticks_zeroOf, Int.neg_zero, Int.zero_ediv, Int.neg_zero]

/-- A double of rank zero is the zero with its sign. -/
theorem eq_zeroOf {x : Finite} (h : x.rank = 0) : x = zeroOf x.negative := by
  obtain ⟨s, r, hr⟩ := x
  obtain rfl : r = 0 := h
  rfl

end Finite

namespace Double

open PayrollFormula.Finite (zeroOf)

/-- Whether two numbers are the same, but for the sign of zero. -/
def Agrees (x y : Double) : Prop := x = y ∨ (x.isZero = true ∧ y.isZero = true)

variable {x x' y y' : Double}

/-- A double agrees with itself. -/
theorem Agrees.refl (x : Double) : x.Agrees x := .inl rfl

/-- The two zeros agree. -/
theorem agrees_zeroOf (s t : Bool) : (finite (zeroOf s)).Agrees (finite (zeroOf t)) :=
  .inr ⟨rfl, rfl⟩

/-- Numbers that agree are the same or two zeros. -/
theorem Agrees.cases (h : x.Agrees y) :
    x = y ∨ ∃ s t, x = finite (zeroOf s) ∧ y = finite (zeroOf t) := by
  have hzero {z : Double} (hz : z.isZero = true) : ∃ s, z = finite (zeroOf s) := by
    cases z with
    | finite z => exact ⟨z.negative, congrArg finite (Finite.eq_zeroOf (by simpa [isZero] using hz))⟩
    | infinite | nan => cases hz
  rcases h with h | ⟨hx, hy⟩
  · exact .inl h
  · obtain ⟨s, rfl⟩ := hzero hx
    obtain ⟨t, rfl⟩ := hzero hy
    exact .inr ⟨s, t, rfl, rfl⟩

/-- Agreement of doubles is transitive. -/
theorem Agrees.trans {z : Double} (hxy : x.Agrees y) (hyz : y.Agrees z) : x.Agrees z := by
  rcases hxy with rfl | ⟨hx, hy⟩
  · exact hyz
  · rcases hyz with rfl | ⟨-, hz⟩
    · exact .inr ⟨hx, hy⟩
    · exact .inr ⟨hx, hz⟩

/-! ## What is the same for both zeros -/

/-- Of doubles that agree, both are finite or neither is. -/
theorem Agrees.isFinite_eq (h : x.Agrees y) : x.isFinite = y.isFinite := by
  obtain rfl | ⟨s, t, rfl, rfl⟩ := h.cases <;> rfl

/-- Of doubles that agree, both are zero or neither is. -/
theorem Agrees.isZero_eq (h : x.Agrees y) : x.isZero = y.isZero := by
  obtain rfl | ⟨s, t, rfl, rfl⟩ := h.cases <;> rfl

/-- Doubles that agree have the same absolute value. -/
theorem Agrees.abs_eq (h : x.Agrees y) : x.abs = y.abs := by
  obtain rfl | ⟨s, t, rfl, rfl⟩ := h.cases <;> rfl

/-- Doubles that agree have the same floor. -/
theorem Agrees.floor_eq (h : x.Agrees y) : x.floor = y.floor := by
  obtain rfl | ⟨s, t, rfl, rfl⟩ := h.cases
  · rfl
  · rw [floor, floor, Finite.floor_zeroOf, Finite.floor_zeroOf]

/-- Doubles that agree have the same ceiling. -/
theorem Agrees.ceil_eq (h : x.Agrees y) : x.ceil = y.ceil := by
  obtain rfl | ⟨s, t, rfl, rfl⟩ := h.cases
  · rfl
  · rw [ceil, ceil, Finite.ceil_zeroOf, Finite.ceil_zeroOf]

/-- Doubles that agree compare alike. -/
theorem Agrees.lt_eq (hx : x.Agrees x') (hy : y.Agrees y') : x.lt y = x'.lt y' := by
  have hleft (s t : Bool) (z : Double) : (finite (zeroOf s)).lt z = (finite (zeroOf t)).lt z := by
    cases z <;> simp [lt]
  have hright (s t : Bool) (z : Double) : z.lt (finite (zeroOf s)) = z.lt (finite (zeroOf t)) := by
    cases z <;> simp [lt]
  obtain rfl | ⟨s, t, rfl, rfl⟩ := hx.cases <;> obtain rfl | ⟨s', t', rfl, rfl⟩ := hy.cases
  · rfl
  · exact hright s' t' x
  · exact hleft s t y
  · rw [hleft s t, hright s' t']

/-- Doubles that agree are equal to the same doubles. -/
theorem Agrees.numEq_eq (hx : x.Agrees x') (hy : y.Agrees y') : x.numEq y = x'.numEq y' := by
  have hleft (s t : Bool) (z : Double) :
      (finite (zeroOf s)).numEq z = (finite (zeroOf t)).numEq z := by
    cases z <;> simp [numEq]
  have hright (s t : Bool) (z : Double) :
      z.numEq (finite (zeroOf s)) = z.numEq (finite (zeroOf t)) := by
    cases z <;> simp [numEq]
  obtain rfl | ⟨s, t, rfl, rfl⟩ := hx.cases <;> obtain rfl | ⟨s', t', rfl, rfl⟩ := hy.cases
  · rfl
  · exact hright s' t' x
  · exact hleft s t y
  · rw [hleft s t, hright s' t']

/-- Of doubles that agree, both count as true or neither does. -/
theorem Agrees.isTrue_eq (h : x.Agrees y) : x.isTrue = y.isTrue := by
  rw [isTrue, isTrue, h.numEq_eq (.refl zero)]

/-- Finite numbers that agree are equal as numbers. -/
theorem Agrees.numEq (h : x.Agrees y) (hx : x.isFinite = true) : x.numEq y = true := by
  rw [← (Agrees.refl x).numEq_eq h]
  cases x with
  | finite x => simp [Double.numEq]
  | infinite | nan => cases hx

/-! ## Operations -/

/-- The negations of doubles that agree do. -/
theorem Agrees.neg (h : x.Agrees y) : x.neg.Agrees y.neg := by
  obtain rfl | ⟨s, t, rfl, rfl⟩ := h.cases
  · exact .refl _
  · exact agrees_zeroOf (!s) (!t)

/-- Nothing is rounded to nothing. -/
theorem round_zero (s : Bool) {den : ℕ} (hden : 0 < den) :
    round s 0 den = finite (zeroOf s) := by
  have hrank : Rank.nearest 0 den = 0 :=
    Nat.le_zero.mp (Rank.nearest_le hden (Nat.zero_le _))
  rw [round, hrank]
  rfl

/-- The sums of doubles that agree do. -/
theorem Agrees.add (hx : x.Agrees x') (hy : y.Agrees y') : (x.add y).Agrees (x'.add y') := by
  -- A sum is rounded with the sign of the exact sum, unless that is zero.
  have hsum {a a' b b' : Finite} (ha : a.ticks = a'.ticks) (hb : b.ticks = b'.ticks) :
      ((finite a).add (finite b)).Agrees ((finite a').add (finite b')) := by
    unfold Double.add
    simp only [ha, hb]
    split_ifs
    · exact agrees_zeroOf _ _
    · exact .refl _
  obtain rfl | ⟨s, t, rfl, rfl⟩ := hx.cases <;> obtain rfl | ⟨s', t', rfl, rfl⟩ := hy.cases
  · exact .refl _
  · cases x with
    | finite x => exact hsum rfl (by simp)
    | infinite | nan => exact .refl _
  · cases y with
    | finite y => exact hsum (by simp) rfl
    | infinite | nan => exact .refl _
  · exact hsum (by simp) (by simp)

/-- The differences of doubles that agree do. -/
theorem Agrees.sub (hx : x.Agrees x') (hy : y.Agrees y') : (x.sub y).Agrees (x'.sub y') :=
  hx.add hy.neg

/-- A product with zero is zero, unless the other factor is not finite. -/
theorem mul_zeroOf (x : Finite) (s : Bool) :
    (∃ t, (finite x).mul (finite (zeroOf s)) = finite (zeroOf t)) ∧
      ∃ t, (finite (zeroOf s)).mul (finite x) = finite (zeroOf t) := by
  have hone := Rank.one_pos
  constructor
  · exact ⟨_, by rw [mul, Finite.magnitude_zeroOf, Nat.mul_zero, round_zero _ hone]⟩
  · exact ⟨_, by rw [mul, Finite.magnitude_zeroOf, Nat.zero_mul, round_zero _ hone]⟩

/-- The products of doubles that agree do. -/
theorem Agrees.mul (hx : x.Agrees x') (hy : y.Agrees y') : (x.mul y).Agrees (x'.mul y') := by
  have hleft (s t : Bool) (z : Double) :
      ((finite (zeroOf s)).mul z).Agrees ((finite (zeroOf t)).mul z) := by
    cases z with
    | finite z =>
      obtain ⟨u, hu⟩ := (mul_zeroOf z s).2
      obtain ⟨v, hv⟩ := (mul_zeroOf z t).2
      rw [hu, hv]
      exact agrees_zeroOf u v
    | infinite | nan => exact .refl _
  have hright (s t : Bool) (z : Double) :
      (z.mul (finite (zeroOf s))).Agrees (z.mul (finite (zeroOf t))) := by
    cases z with
    | finite z =>
      obtain ⟨u, hu⟩ := (mul_zeroOf z s).1
      obtain ⟨v, hv⟩ := (mul_zeroOf z t).1
      rw [hu, hv]
      exact agrees_zeroOf u v
    | infinite | nan => exact .refl _
  obtain rfl | ⟨s, t, rfl, rfl⟩ := hx.cases <;> obtain rfl | ⟨s', t', rfl, rfl⟩ := hy.cases
  · exact .refl _
  · exact hright s' t' x
  · exact hleft s t y
  · exact (hleft s t _).trans (hright s' t' _)

/-- Quotients agree if the dividends do and the divisors, which are no zeros, do too. -/
theorem Agrees.div (hx : x.Agrees x') (hy : y.Agrees y') (hne : y.isZero = false) :
    (x.div y).Agrees (x'.div y') := by
  obtain rfl | ⟨s', t', rfl, rfl⟩ := hy.cases
  · obtain rfl | ⟨s, t, rfl, rfl⟩ := hx.cases
    · exact .refl _
    · cases y with
      | finite y =>
        have hrank : y.rank ≠ 0 := by simpa [isZero] using hne
        have hpos : 0 < y.magnitude := by
          have hlt := Rank.ticks_strictMono (Nat.pos_of_ne_zero hrank)
          rwa [Rank.ticks_zero] at hlt
        simp only [Double.div, if_neg hrank, Finite.magnitude_zeroOf, Nat.zero_mul,
          round_zero _ hpos]
        exact agrees_zeroOf _ _
      | infinite => exact agrees_zeroOf _ _
      | nan => exact .refl _
  · cases hne

/-- Of numbers that agree, both have a remainder and these agree, or neither has one. -/
theorem Agrees.remainder (hx : x.Agrees x') (hy : y.Agrees y') :
    (∃ r r', x.remainder y = .ok r ∧ x'.remainder y' = .ok r' ∧ r.Agrees r') ∨
      ∃ e, x.remainder y = .error e ∧ x'.remainder y' = .error e := by
  have hsame (z : Except NumberError Double) :
      (∃ r r', z = .ok r ∧ z = .ok r' ∧ r.Agrees r') ∨ ∃ e, z = .error e ∧ z = .error e := by
    cases z with
    | ok r => exact .inl ⟨r, r, rfl, rfl, .refl r⟩
    | error e => exact .inr ⟨e, rfl, rfl⟩
  have hright (s t : Bool) (z : Double) :
      z.remainder (finite (zeroOf s)) = z.remainder (finite (zeroOf t)) := by
    cases z <;> rfl
  have hchange : x'.remainder y' = x'.remainder y := by
    obtain rfl | ⟨s, t, rfl, rfl⟩ := hy.cases
    · rfl
    · exact hright t s x'
  rw [hchange]
  obtain rfl | ⟨s, t, rfl, rfl⟩ := hx.cases
  · exact hsame _
  · cases y with
    | finite y =>
      by_cases hrank : y.rank = 0
      · exact .inr ⟨.outsideDomain, by simp [Double.remainder, hrank],
          by simp [Double.remainder, hrank]⟩
      · refine .inl ⟨finite (zeroOf s), finite (zeroOf t), ?_, ?_, agrees_zeroOf s t⟩ <;>
          simp [Double.remainder, hrank, round_zero]
    | infinite => exact .inl ⟨_, _, rfl, rfl, agrees_zeroOf s t⟩
    | nan => exact hsame (.ok nan)

/-- Whether numbers are close does not depend on the sign of zero, whatever the tolerances. -/
theorem Agrees.isClose_eq (t : Tolerances) (hx : x.Agrees x') (hy : y.Agrees y') :
    isClose t x y = isClose t x' y' := by
  have hdistance : (y.sub x).abs = (y'.sub x').abs := (hy.sub hx).abs_eq
  have hleft : (t.relative.mul x).abs = (t.relative.mul x').abs := ((Agrees.refl _).mul hx).abs_eq
  have hright : (t.relative.mul y).abs = (t.relative.mul y').abs := ((Agrees.refl _).mul hy).abs_eq
  unfold isClose
  rw [hx.numEq_eq hy, hx.isFinite_eq, hy.isFinite_eq, hdistance, hleft, hright]

end Double

/-- Zero is zero at any number of decimal places. -/
theorem Finite.toPlaces_zeroOf (s : Bool) (places : ℤ) :
    (Finite.zeroOf s).toPlaces? places = some (.finite (Finite.zeroOf s)) := by
  have hhalf {b : ℕ} (hb : 0 < b) : divHalfUp 0 b = 0 := by
    unfold divHalfUp
    exact Nat.div_eq_of_lt (by omega)
  have hcoefficient : ((Numeral.shortest 0).toPlaces places).coefficient = 0 := by
    unfold Numeral.toPlaces
    simp only [Numeral.shortest, if_true]
    split_ifs
    · exact Nat.zero_mul _
    · exact hhalf (Numeral.ten_pow_pos _)
  have hrank : ((Numeral.shortest 0).toPlaces places).rank = 0 := by
    rw [Numeral.rank, if_pos hcoefficient]
  have hpos (k : ℕ) : 0 < Nat.pow 10 k := Numeral.ten_pow_pos k
  rw [toPlaces?, rank_zeroOf]
  simp only [hcoefficient, if_pos (hpos _), Numeral.toDouble, hrank]
  rfl

end PayrollFormula
