import Mathlib.Algebra.Order.Floor.Semifield
import Mathlib.Data.Rat.Floor
import PayrollFormula.Proofs.Number.Nearest
import PayrollFormula.Proofs.Number.Written

/-!
# Rounding to decimal places is exact

Rounding a numeral to decimal places takes the multiple of the last place nearest to it, and half
way between two of them the one with the larger magnitude, whatever the sign is
(`Numeral.isNearestMultiple_toPlaces`). A finite double is rounded as its shortest numeral is. This
keeps the order of doubles, since shortest numerals are ordered as their doubles are
(`Finite.rounded_mono`), and rounding again changes nothing (`Finite.rounded_rounded`): the
rounded numeral has no digits beyond the last place, and the shortest numeral of its double has none
either.
-/

set_option autoImplicit false

namespace PayrollFormula

/-! ## Nearest multiples -/

/-- Whether a number is the multiple of a unit nearest to another number: it is at most half a unit
away, and if another multiple is so too, its magnitude is the larger one. -/
structure IsNearestMultiple (unit d r : ℚ) : Prop where
  multiple : ∃ m : ℤ, r = m * unit
  near : |r - d| ≤ unit / 2
  largest : ∀ m : ℤ, |m * unit - d| ≤ unit / 2 → m * unit = r ∨ |m * unit| < |r|

/-- A multiple under a sign is a multiple, and each multiple is one under the sign. -/
theorem exists_signedRat_mul (s : Bool) (m : ℤ) (u : ℚ) :
    ∃ j : ℤ, signedRat s (m * u) = j * u ∧ m * u = signedRat s (j * u) ∧ j.natAbs = m.natAbs := by
  cases s with
  | false => exact ⟨m, rfl, rfl, rfl⟩
  | true => exact ⟨-m, by simp [signedRat]⟩

/-- Multiples of a unit are at most half of it apart exactly if the factors are at most a half
apart. -/
theorem abs_mul_sub_mul_le_iff {u : ℚ} (hu : 0 < u) (m a : ℚ) :
    |m * u - a * u| ≤ u / 2 ↔ m ≤ a + 1 / 2 ∧ a ≤ m + 1 / 2 := by
  rw [← sub_mul, abs_mul, abs_of_pos hu, ← le_div_iff₀ hu, div_div, mul_comm 2 u, ← div_div,
    div_self hu.ne', abs_le]
  constructor
  · rintro ⟨hlow, hhigh⟩
    constructor <;> linarith
  · rintro ⟨hhigh, hlow⟩
    constructor <;> linarith

/-- Adding one half to the number of units and dropping the fraction gives the nearest multiple. -/
theorem isNearestMultiple_floor (s : Bool) {u a : ℚ} (hu : 0 < u) (ha : 0 ≤ a) :
    IsNearestMultiple u (signedRat s (a * u)) (signedRat s (⌊a + 1 / 2⌋₊ * u)) := by
  generalize hm : ⌊a + 1 / 2⌋₊ = m
  obtain ⟨hlow, hhigh⟩ := (Nat.floor_eq_iff (by linarith)).mp hm
  refine ⟨?_, ?_, fun i hi => ?_⟩
  · obtain ⟨j, hj, -⟩ := exists_signedRat_mul s m u
    exact ⟨j, by exact_mod_cast hj⟩
  · rw [abs_signedRat_sub, abs_mul_sub_mul_le_iff hu]
    constructor <;> linarith
  · -- A multiple that is as near has the same sign, and none is above the one that is taken.
    obtain ⟨j, -, hj, -⟩ := exists_signedRat_mul s i u
    rw [hj, abs_signedRat_sub, abs_mul_sub_mul_le_iff hu] at hi
    have hsign : ((-1 : ℤ) : ℚ) < j := by
      push_cast
      linarith
    obtain ⟨k, rfl⟩ := Int.eq_ofNat_of_zero_le (Int.cast_lt.mp hsign)
    have hk : k ≤ m := hm ▸ Nat.le_floor (by exact_mod_cast hi.1)
    rw [hj, Int.cast_natCast]
    rcases hk.eq_or_lt with rfl | hlt
    · exact .inl rfl
    · refine .inr ?_
      rw [abs_signedRat, abs_signedRat, abs_mul, abs_mul, Nat.abs_cast, Nat.abs_cast]
      exact mul_lt_mul_of_pos_right (by exact_mod_cast hlt) (abs_pos.mpr hu.ne')

/-! ## Numerals -/

/-- Rounding half up is the floor of the quotient and a half. -/
theorem divHalfUp_eq_floor (a : ℕ) {b : ℕ} (hb : 0 < b) :
    divHalfUp a b = ⌊(a / b : ℚ) + 1 / 2⌋₊ := by
  have hpos : (0 : ℚ) < b := by exact_mod_cast hb
  have hquotient : (a / b : ℚ) + 1 / 2 = (2 * a + b : ℕ) / (2 * b : ℕ) := by
    push_cast
    rw [div_add_div _ _ hpos.ne' two_ne_zero, mul_one, mul_comm (b : ℚ) 2, mul_comm (a : ℚ) 2]
  rw [hquotient, Nat.floor_div_eq_div, divHalfUp]

namespace Numeral

/-- A numeral is rounded to places as its value is. -/
theorem toPlaces_eq (n : Numeral) (places : ℤ) :
    n.toPlaces places = ⟨⌊n.toRat * 10 ^ places + 1 / 2⌋₊, -places⟩ := by
  have hvalue : n.toRat * 10 ^ places = n.coefficient * 10 ^ (n.exponent + places) := by
    rw [toRat, zpow_add₀ (by norm_num), mul_assoc]
  rw [hvalue]
  unfold toPlaces
  simp only [Nat.pow_eq]
  generalize n.exponent + places = shift
  split_ifs with hshift
  · obtain ⟨k, rfl⟩ := Int.eq_ofNat_of_zero_le hshift
    have hwhole : (n.coefficient * 10 ^ (k : ℤ) : ℚ) = (n.coefficient * 10 ^ k : ℕ) := by
      push_cast
      rw [zpow_natCast]
    congr 1
    rw [hwhole, Int.toNat_natCast, eq_comm, Nat.floor_eq_iff (by positivity)]
    constructor <;> linarith
  · obtain ⟨k, rfl⟩ : ∃ k : ℕ, shift = -k := ⟨(-shift).toNat, by omega⟩
    congr 1
    rw [divHalfUp_eq_floor _ (ten_pow_pos _), Int.neg_neg, Int.toNat_natCast, zpow_neg,
      zpow_natCast, Nat.cast_pow, Nat.cast_ofNat, div_eq_mul_inv]

/-- Rounding a numeral to decimal places gives the nearest multiple of the last place. -/
theorem isNearestMultiple_toPlaces (n : Numeral) (places : ℤ) (s : Bool) :
    IsNearestMultiple (10 ^ (-places)) (signedRat s n.toRat)
      (signedRat s (n.toPlaces places).toRat) := by
  have hunit : (0 : ℚ) < 10 ^ (-places) := by positivity
  have hunits : n.toRat = n.toRat * 10 ^ places * 10 ^ (-places) := by
    rw [mul_assoc, ← zpow_add₀ (by norm_num), add_neg_cancel, zpow_zero, mul_one]
  have hnonneg : 0 ≤ n.toRat * 10 ^ places := mul_nonneg n.toRat_nonneg (by positivity)
  have h := isNearestMultiple_floor s hunit hnonneg
  rw [← hunits] at h
  rw [toPlaces_eq]
  exact h

/-- Rounding to decimal places keeps the order of numerals. -/
theorem rank_toPlaces_mono {n m : Numeral} (h : n.toRat ≤ m.toRat) (places : ℤ) :
    (n.toPlaces places).rank ≤ (m.toPlaces places).rank := by
  rw [toPlaces_eq, toPlaces_eq]
  refine rank_mono (Nat.floor_mono ?_) _
  gcongr

/-- Numerals of finite doubles are read in the order of their values. -/
theorem rank_le_of_toRat_le {n m : Numeral} (hn0 : 0 < n.rank) (hnlimit : n.rank < Rank.limit)
    (hm0 : 0 < m.rank) (hmlimit : m.rank < Rank.limit) (h : n.toRat ≤ m.toRat) :
    n.rank ≤ m.rank := by
  obtain ⟨hnc, hnhigh, hnlow⟩ := unsettled_of_rank hn0 hnlimit
  obtain ⟨hmc, hmhigh, hmlow⟩ := unsettled_of_rank hm0 hmlimit
  rw [rank_eq_nearest hnc hnhigh hnlow, rank_eq_nearest hmc hmhigh hmlow]
  refine Rank.nearest_le_nearest (ten_pow_pos _) (ten_pow_pos _) ?_
  have hsize : n.size * 10 ^ (-n.exponent).toNat * 10 ^ (-m.exponent).toNat ≤
      m.size * 10 ^ (-m.exponent).toNat * 10 ^ (-n.exponent).toNat := by
    rw [mul_right_comm m.size]
    gcongr
    exact mul_le_mul_of_nonneg_right h (Nat.cast_nonneg _)
  rw [size_mul, size_mul] at hsize
  exact_mod_cast hsize

/-- The numeral of zero is zero. -/
@[simp] theorem toRat_shortest_zero : (shortest 0).toRat = 0 := by
  simp [shortest, toRat]

/-- Shortest numerals are ordered as their ranks are. -/
theorem toRat_shortest_mono {r r' : ℕ} (h : r ≤ r') (hlimit : r' < Rank.limit) :
    (shortest r).toRat ≤ (shortest r').toRat := by
  rcases Nat.eq_zero_or_pos r with rfl | hpos
  · rw [toRat_shortest_zero]
    exact toRat_nonneg _
  · by_contra hlt
    have hle : (shortest r').rank ≤ (shortest r).rank := by
      refine rank_le_of_toRat_le ?_ ?_ ?_ ?_ (not_le.mp hlt).le <;> rw [rank_shortest] <;> omega
    rw [rank_shortest, rank_shortest] at hle
    rw [le_antisymm h hle] at hlt
    exact hlt le_rfl

/-- Zero stays zero when it is rounded. -/
theorem rank_toPlaces_shortest_zero (places : ℤ) : ((shortest 0).toPlaces places).rank = 0 := by
  rw [toPlaces_eq, toRat_shortest_zero]
  norm_num

/-- Rounding leaves alone a double that has a numeral without digits beyond the last place, since
its shortest numeral has none either. -/
theorem rank_toPlaces_shortest_of_exponent {n : Numeral} {places : ℤ} (hexp : -places ≤ n.exponent)
    (hplaces : places.natAbs ≤ 15) (hlimit : n.rank < Rank.limit) :
    ((shortest n.rank).toPlaces places).rank = n.rank := by
  rcases Nat.eq_zero_or_pos n.rank with hzero | hpos
  · rw [hzero, rank_toPlaces_shortest_zero]
  · have hlonger := exponent_le_shortest hpos hlimit
    have hrank := rank_shortest n.rank
    rw [rank_toPlaces_of_nonneg hplaces (by omega) (by omega) (by omega), hrank]

end Numeral

/-! ## Doubles -/

namespace Finite

variable {places : ℤ}

/-- Negation may be done before rounding or after. -/
theorem rounded_neg (x : Finite) (h : places.natAbs ≤ 15) : x.neg.rounded h = (x.rounded h).neg :=
  rfl

/-- Rounding a double again changes nothing. -/
theorem rounded_rounded (x : Finite) (h : places.natAbs ≤ 15) :
    (x.rounded h).rounded h = x.rounded h := by
  have hexp := Numeral.exponent_toPlaces (Numeral.shortest x.rank) places
  have hrank := Numeral.rank_toPlaces_shortest_of_exponent hexp.ge h (x.rounded h).rank_lt
  exact (Finite.mk.injEq _ _ _ _ _ _).mpr ⟨rfl, hrank⟩

/-- A greater magnitude is rounded to one that is no smaller. -/
theorem magnitude_rounded_mono {x y : Finite} (h : places.natAbs ≤ 15)
    (hxy : x.magnitude ≤ y.magnitude) : (x.rounded h).magnitude ≤ (y.rounded h).magnitude := by
  have hrank : x.rank ≤ y.rank := Rank.ticks_strictMono.le_iff_le.mp hxy
  have hshortest := Numeral.toRat_shortest_mono hrank y.rank_lt
  exact Rank.ticks_strictMono.monotone (Numeral.rank_toPlaces_mono hshortest places)

/-- A magnitude of zero is rounded to zero. -/
theorem magnitude_rounded_eq_zero {x : Finite} (h : places.natAbs ≤ 15) (hx : x.magnitude = 0) :
    (x.rounded h).magnitude = 0 := by
  rw [magnitude_eq_zero_iff] at hx ⊢
  unfold rounded
  simp only [hx, Numeral.rank_toPlaces_shortest_zero]

/-- Rounding keeps the order of doubles. -/
theorem rounded_mono {x y : Finite} (h : places.natAbs ≤ 15) (hxy : x.toRat ≤ y.toRat) :
    (x.rounded h).toRat ≤ (y.rounded h).toRat := by
  rw [toRat_le_iff] at hxy ⊢
  have hx : (x.rounded h).negative = x.negative := rfl
  have hy : (y.rounded h).negative = y.negative := rfl
  unfold ticks at hxy ⊢
  rw [hx, hy]
  cases hxneg : x.negative <;> cases hyneg : y.negative <;>
    simp only [hxneg, hyneg, if_true, if_false, Bool.false_eq_true] at hxy ⊢
  · exact_mod_cast magnitude_rounded_mono h (by exact_mod_cast hxy)
  · -- Both numbers are zeros.
    rw [magnitude_rounded_eq_zero h (by omega), magnitude_rounded_eq_zero h (by omega)]
    rfl
  · omega
  · exact neg_le_neg (by exact_mod_cast magnitude_rounded_mono h (by omega))

/-- The rounded double is the nearest to the shortest numeral rounded under the sign. -/
theorem isNearest_rounded (x : Finite) (h : places.natAbs ≤ 15) :
    (x.rounded h).IsNearest
      (signedRat x.negative ((Numeral.shortest x.rank).toPlaces places).toRat) := by
  have hexp := Numeral.exponent_toPlaces (Numeral.shortest x.rank) places
  exact isNearest_of_rank (Numeral.toRat_nonneg _) (Numeral.isNearest_rank (by omega))

end Finite

end PayrollFormula
