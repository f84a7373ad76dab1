import Mathlib.Algebra.Order.Field.Power
import PayrollFormula.Number.Decimal
import PayrollFormula.Proofs.Number.Whole

/-!
# Exact values

The rational numbers that numerals, decimal numbers and finite doubles stand for. A finite double is
a magnitude under a sign, as a decimal number is (`Finite.toRat_eq`), and it is whole exactly if its
value is an integer, which is then the greatest of at most its value (`Finite.isWhole_iff`,
`Finite.floor_of_toRat`).
-/

set_option autoImplicit false

namespace PayrollFormula

/-! ## Magnitudes under a sign -/

/-- A number, or its negation. -/
def signedRat (negative : Bool) (q : ℚ) : ℚ := if negative then -q else q

/-- A sign does not change the absolute value. -/
theorem abs_signedRat (s : Bool) (q : ℚ) : |signedRat s q| = |q| := by
  cases s <;> simp [signedRat]

/-- Under one sign numbers are as far apart as their magnitudes. -/
theorem abs_signedRat_sub (s : Bool) (a b : ℚ) : |signedRat s a - signedRat s b| = |a - b| := by
  cases s with
  | false => rfl
  | true =>
    simp only [signedRat, if_true]
    rw [neg_sub_neg, abs_sub_comm]

/-- Under different signs numbers are apart by the sum of their magnitudes. -/
theorem abs_signedRat_not_sub (s : Bool) {a b : ℚ} (ha : 0 ≤ a) (hb : 0 ≤ b) :
    |signedRat (!s) a - signedRat s b| = a + b := by
  have hsum : signedRat (!s) a - signedRat s b = -signedRat s (a + b) := by
    cases s with
    | false => exact (neg_add' a b).symm
    | true => simp [signedRat]
  rw [hsum, abs_neg, abs_signedRat, abs_of_nonneg (add_nonneg ha hb)]

/-! ## Numerals -/

namespace Numeral

/-- The number that a numeral stands for. -/
def toRat (n : Numeral) : ℚ := n.coefficient * 10 ^ n.exponent

/-- No numeral has a value below zero. -/
theorem toRat_nonneg (n : Numeral) : 0 ≤ n.toRat := by
  unfold toRat
  positivity

/-- A power of ten is the quotient of two with natural exponents. -/
theorem ten_zpow_mul (e : ℤ) : (10 : ℚ) ^ e * 10 ^ (-e).toNat = 10 ^ e.toNat := by
  rw [← zpow_natCast, ← zpow_natCast, ← zpow_add₀ (by norm_num)]
  congr 1
  omega

/-- The value of a numeral is the quotient of two natural numbers. -/
theorem toRat_mul (n : Numeral) :
    n.toRat * 10 ^ (-n.exponent).toNat = (n.coefficient * 10 ^ n.exponent.toNat : ℕ) := by
  unfold toRat
  push_cast
  rw [← ten_zpow_mul n.exponent]
  ring

end Numeral

/-- The number that a decimal number stands for, unless it is infinite or undefined. -/
def Decimal.toRat? : Decimal → Option ℚ
  | .finite negative c e => some (signedRat negative (Numeral.mk c e).toRat)
  | _ => none

/-! ## Finite doubles -/

namespace Finite

/-- The number that a finite double stands for. -/
def toRat (x : Finite) : ℚ := x.ticks / Rank.one

/-- One has a positive number of ticks. -/
theorem one_pos : (0 : ℚ) < Rank.one := by
  exact_mod_cast Rank.one_pos

/-- The value of a double is its magnitude in ticks over those of one, with its sign. -/
theorem toRat_eq (x : Finite) : x.toRat = signedRat x.negative (x.magnitude / Rank.one) := by
  unfold toRat ticks signedRat
  cases x.negative with
  | false => simp only [Bool.false_eq_true, if_false, Int.cast_natCast]
  | true => simp only [if_true, Int.cast_neg, Int.cast_natCast, neg_div]

/-- The order of values is that of ticks. -/
theorem toRat_le_iff {x y : Finite} : x.toRat ≤ y.toRat ↔ x.ticks ≤ y.ticks := by
  unfold toRat
  rw [div_le_div_iff_of_pos_right one_pos, Int.cast_le]

/-- A double is an integer exactly if its ticks are that many times those of one. -/
theorem toRat_eq_intCast_iff {x : Finite} {k : ℤ} : x.toRat = k ↔ x.ticks = k * Rank.one := by
  unfold toRat
  rw [div_eq_iff one_pos.ne']
  exact_mod_cast Iff.rfl

/-- A finite double is whole if its value is an integer. -/
theorem isWhole_iff {x : Finite} : x.isWhole = true ↔ ∃ k : ℤ, x.toRat = k := by
  simp only [isWhole, decide_eq_true_eq, toRat_eq_intCast_iff]
  rw [← Nat.dvd_iff_mod_eq_zero, ← natAbs_ticks, ← Int.natCast_dvd]
  exact exists_congr fun k => by rw [Int.mul_comm]

/-- A double that is an integer is its own floor. -/
theorem floor_of_toRat {x : Finite} {k : ℤ} (h : x.toRat = k) : x.floor = k := by
  have hpos : (0 : ℤ) < Rank.one := by exact_mod_cast Rank.one_pos
  rw [floor, toRat_eq_intCast_iff.mp h, Int.mul_ediv_cancel _ hpos.ne']

end Finite

end PayrollFormula
