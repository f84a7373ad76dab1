import PayrollFormula.Proofs.Number.FewestDigits
import PayrollFormula.Proofs.Number.Written

/-!
# How long the text of a double is

The text of a double inside a formula is at most four times as long as any numeral that is read as
it (`length_formulaText_le`). A short integer is written out, for which its numeral has to have an
exponent: `1e15` is written with sixteen digits. Any other double has no more digits than its
numeral, and a mark of at most five characters besides.
-/

set_option autoImplicit false

namespace PayrollFormula

namespace Rank

/-! ## Whole numbers -/

/-- A multiple of the distance between the ranks around it is one of them. -/
theorem ticks_nearest_of_dvd {q : ℕ} (h : 2 ^ (q.log2 - 52) ∣ q) : ticks (nearest q 1) = q := by
  have hticks := (ticks_below q).1
  rw [Nat.div_mul_cancel h] at hticks
  have hround := nearest_ticks (below q) Nat.one_pos
  rw [Nat.mul_one, hticks] at hround
  rw [hround, hticks]

/-- A power of two adds its exponent to the logarithm. -/
theorem log2_mul_two_pow {v : ℕ} (hv : v ≠ 0) (k : ℕ) : (v * 2 ^ k).log2 = v.log2 + k := by
  rw [Nat.log2_eq_iff (Nat.mul_pos (Nat.pos_of_ne_zero hv) (Nat.two_pow_pos k)).ne', Nat.pow_add,
    Nat.add_right_comm, Nat.pow_add]
  exact ⟨Nat.mul_le_mul_right _ (Nat.log2_self_le hv),
    Nat.mul_lt_mul_of_pos_right Nat.lt_log2_self (Nat.two_pow_pos k)⟩

/-- A whole number that has at most 53 digits in base two before its zeros is not rounded. -/
theorem ticks_nearest_mul_one {v : ℕ} (hv : v ≠ 0) (h : 2 ^ (v.log2 - 52) ∣ v) :
    ticks (nearest (v * one) 1) = v * one := by
  apply ticks_nearest_of_dvd
  rw [one, Nat.pow_eq, log2_mul_two_pow hv]
  generalize 1074 = k
  rcases Nat.le_total 52 v.log2 with hle | hle
  · rw [Nat.sub_add_comm hle, Nat.pow_add]
    exact Nat.mul_dvd_mul_right h _
  · exact (Nat.pow_dvd_pow 2 (by omega)).mul_left v

/-- A whole number is rounded to a whole number. -/
theorem one_dvd_ticks_nearest (v : ℕ) : one ∣ ticks (nearest (v * one) 1) := by
  generalize hq : v * one = q
  have hdvd : one ∣ q := ⟨v, by rw [← hq, Nat.mul_comm]⟩
  have hone : one = 2 ^ 1074 := rfl
  rcases Nat.le_total (q.log2 - 52) 1074 with hk | hk
  · have hpow : 2 ^ (q.log2 - 52) ∣ q :=
      ((Nat.pow_dvd_pow 2 hk).trans (dvd_of_eq hone.symm)).trans hdvd
    rw [ticks_nearest_of_dvd hpow]
    exact hdvd
  · -- Ranks of this size are multiples of a power of two that the one divides.
    obtain ⟨hticks, hscale⟩ := ticks_below q
    generalize q.log2 - 52 = k at hk hticks hscale
    have hpow : one ∣ 2 ^ k := (dvd_of_eq hone).trans (Nat.pow_dvd_pow 2 hk)
    have hlow : one ∣ ticks (below q) := hticks ▸ hpow.mul_left _
    have hhigh : one ∣ ticks (below q + 1) := by
      rw [ticks_succ, hscale]
      exact Nat.dvd_add hlow hpow
    unfold nearest
    simp only [Nat.div_one]
    rcases nearer_eq (below q) (compare (2 * q) (1 * (ticks (below q) + ticks (below q + 1))))
      with ho | ho
    · rw [ho]
      exact hlow
    · rw [ho]
      exact hhigh

end Rank

namespace Numeral

/-- A numeral without places behind the point is read as a whole number. -/
theorem one_dvd_ticks_rank {n : Numeral} (h0 : 0 < n.rank) (hlimit : n.rank < Rank.limit)
    (he : 0 ≤ n.exponent) : Rank.one ∣ Rank.ticks n.rank := by
  obtain ⟨hc, hhigh, hlow⟩ := unsettled_of_rank h0 hlimit
  rw [rank_eq_nearest hc hhigh hlow, show (-n.exponent).toNat = 0 by omega, Nat.pow_zero]
  exact Rank.one_dvd_ticks_nearest _

/-! ## Texts of numerals -/

/-- An exponent of at most three digits takes at most five characters. -/
theorem length_exponentMark_le {e : ℤ} (he : e.natAbs < 1000) : (exponentMark e).length ≤ 5 := by
  have hdigits : (decimalDigits e.natAbs).length ≤ 3 :=
    (length_decimalDigits_le_iff (by decide)).mpr he
  unfold exponentMark
  simp only [List.length_cons]
  split_ifs
  · rw [List.length_cons]
    omega
  · omega

/-- At most `k` digits with a power of ten take at most `4 * k` characters. -/
theorem length_scientific_le {ds : List Char} {e : ℤ} (hne : ds ≠ []) (he : e.natAbs < 1000)
    {k : ℕ} (hk : 2 ≤ k) (hds : ds.length ≤ k) : (scientific ds e).length ≤ 4 * k := by
  have hmark := length_exponentMark_le he
  match ds, hne with
  | [d], _ =>
    rw [scientific, List.length_cons]
    omega
  | d :: d' :: rest, _ =>
    simp only [scientific, List.length_cons, List.length_append] at hds ⊢
    omega

/-- At most `k` digits with a point take at most `4 * k` characters. -/
theorem length_positional_le {ds : List Char} {point : ℤ} (hlow : -4 < point)
    (hwhole : point < ds.length) {k : ℕ} (hk : 2 ≤ k) (hds : ds.length ≤ k) :
    (positional ds point).length ≤ 4 * k := by
  unfold positional
  split_ifs with hsmall hlarge
  · simp only [List.length_cons, List.length_append, List.length_replicate]
    omega
  · omega
  · simp only [List.length_append, List.length_cons, List.length_take, List.length_drop]
    omega

/-- The text of a numeral that is no whole number below `10 ^ 16` is at most four times as long as
its digits, of which there are taken to be two at least. -/
theorem length_text_le {n : Numeral} {k : ℕ} (hk : 2 ≤ k)
    (hdigits : (decimalDigits n.coefficient).length ≤ k)
    (hsize : ((decimalDigits n.coefficient).length + n.exponent - 1).natAbs < 1000)
    (hwhole : 0 ≤ n.exponent → 16 < (decimalDigits n.coefficient).length + n.exponent) :
    n.text.length ≤ 4 * k := by
  unfold text
  simp only
  split_ifs with hpoint
  · exact length_positional_le hpoint.1 (by omega) hk hdigits
  · exact length_scientific_le (decimalDigits_ne_nil _) hsize hk hdigits

/-- A number of some digits is at least the power of ten with as many. -/
theorem ten_pow_le_of_length {n k : ℕ} (hn : n ≠ 0) (hk : (decimalDigits n).length = k + 1) :
    10 ^ k ≤ n := by
  rcases Nat.eq_zero_or_pos k with rfl | hpos
  · exact Nat.pos_of_ne_zero hn
  · by_contra hlt
    have hle := (length_decimalDigits_le_iff hpos).mpr (not_le.mp hlt)
    omega

/-- The decimal exponent of the shortest numeral of a finite double has at most three digits. -/
theorem natAbs_point_lt {r : ℕ} (h0 : 0 < r) (hlimit : r < Rank.limit) :
    ((decimalDigits (shortest r).coefficient).length + (shortest r).exponent - 1).natAbs < 1000 := by
  have hrank := rank_shortest r
  have hleast : -1074 ≤ (shortest r).exponent := by
    rw [shortest, if_neg h0.ne']
    exact neg_le_exponent_search r 1383
  generalize shortest r = n at hrank hleast
  subst hrank
  obtain ⟨hc, -, -⟩ := unsettled_of_rank h0 hlimit
  have hlog := le_log2_of_rank h0 hlimit
  obtain ⟨k, hk⟩ : ∃ k, (decimalDigits n.coefficient).length = k + 1 :=
    Nat.exists_eq_succ_of_ne_zero (by simp [decimalDigits_ne_nil])
  have hbits : n.coefficient.log2 < 4 * (k + 1) := by
    have hlt := (length_decimalDigits_le_iff k.succ_pos).mp hk.le
    have hpow : 10 ^ (k + 1) ≤ 2 ^ (4 * (k + 1)) := by
      rw [Nat.pow_mul]
      exact Nat.pow_le_pow_left (by decide) _
    exact (Nat.log2_lt hc).mpr (hlt.trans_le hpow)
  have hplaces : k + n.exponent.toNat < 309 + (-n.exponent).toNat := by
    refine (Nat.pow_lt_pow_iff_right (by decide : 1 < 10)).mp ?_
    calc 10 ^ (k + n.exponent.toNat) = 10 ^ k * 10 ^ n.exponent.toNat := Nat.pow_add ..
      _ ≤ n.coefficient * 10 ^ n.exponent.toNat :=
          Nat.mul_le_mul_right _ (ten_pow_le_of_length hc hk)
      _ < 10 ^ 309 * 10 ^ (-n.exponent).toNat := below_of_rank_lt_limit hlimit
      _ = 10 ^ (309 + (-n.exponent).toNat) := (Nat.pow_add ..).symm
  rw [hk]
  omega

/-! ## Whole numbers that are no short integers -/

/-- The sixteenth power of ten is a double. -/
theorem ticks_ten_pow_sixteen : Rank.ticks (Numeral.mk 1 16).rank = 10 ^ 16 * Rank.one := by
  have hsixteen : (16 : ℤ).toNat = 16 := rfl
  have hzero : (-16 : ℤ).toNat = 0 := rfl
  have hwhole := Rank.ticks_nearest_mul_one (v := 10 ^ 16) (by decide) (by decide)
  rw [rank_eq_nearest (n := ⟨1, 16⟩) (by decide) (by decide) (by decide)]
  simp only [hsixteen, hzero, Nat.pow_zero, Nat.one_mul]
  exact hwhole

/-- The shortest numeral of a double from `10 ^ 16` on has its point behind the sixteenth place. -/
theorem sixteen_lt_point {r : ℕ} (hlimit : r < Rank.limit)
    (hlarge : 10 ^ 16 * Rank.one ≤ Rank.ticks r) :
    16 < (decimalDigits (shortest r).coefficient).length + (shortest r).exponent := by
  have hticks := ticks_ten_pow_sixteen
  generalize hsixteen : (Numeral.mk 1 16).rank = r16 at hticks
  have hle : r16 ≤ r := by
    rw [← hticks] at hlarge
    exact Rank.ticks_strictMono.le_iff_le.mp hlarge
  have hpositive : 0 < r16 := by
    by_contra hzero
    rw [Nat.eq_zero_of_not_pos hzero, Rank.ticks_zero] at hticks
    exact absurd hticks (Nat.mul_pos (ten_pow_pos 16) Rank.one_pos).ne
  have hpos : 0 < (decimalDigits (shortest r).coefficient).length :=
    List.length_pos_iff.mpr (decimalDigits_ne_nil _)
  rcases hle.eq_or_lt with rfl | hlt
  · -- One digit is enough for the power of ten itself.
    have hexp := exponent_le_shortest (hsixteen.symm ▸ hpositive) (hsixteen.symm ▸ hlimit)
    rw [hsixteen] at hexp
    simp only at hexp
    omega
  · by_contra hpoint
    have hrank := rank_shortest r
    generalize shortest r = n at hrank hpos hpoint
    subst hrank
    obtain ⟨hc, hhigh, hlow⟩ := unsettled_of_rank (hpositive.trans hlt) hlimit
    have hdigits := (length_decimalDigits_le_iff hpos).mp le_rfl
    refine absurd hlt (not_lt.mpr ?_)
    rw [rank_eq_nearest hc hhigh hlow]
    refine Rank.nearest_le (ten_pow_pos _) ?_
    calc n.coefficient * 10 ^ n.exponent.toNat * Rank.one
        ≤ 10 ^ (decimalDigits n.coefficient).length * 10 ^ n.exponent.toNat * Rank.one :=
          Nat.mul_le_mul_right _ (Nat.mul_le_mul_right _ hdigits.le)
      _ ≤ 10 ^ (16 + (-n.exponent).toNat) * Rank.one := by
          rw [← Nat.pow_add]
          exact Nat.mul_le_mul_right _ (Nat.pow_le_pow_right (by decide) (by omega))
      _ = Rank.ticks r16 * 10 ^ (-n.exponent).toNat := by
          rw [hticks, Nat.pow_add]
          ring

/-! ## Numerals and their values -/

/-- A written exponent is absent, or less than ten to the power of the digits that it can have. -/
theorem IsPower.powerValue_lt {power : List Char} (h : IsPower power) :
    power = [] ∧ powerValue power = 0 ∨
      2 ≤ power.length ∧ powerValue power < 10 ^ (power.length - 1) := by
  cases h with
  | none => exact .inl ⟨rfl, rfl⟩
  | @some m sign ds hm hsign hne hds =>
    have hpos := List.length_pos_iff.mpr hne
    have hlt : (digitsValue ds : ℤ) < 10 ^ ds.length := by exact_mod_cast digitsValue_lt hds
    have hle : (10 : ℤ) ^ ds.length ≤ 10 ^ (sign ++ ds).length := by
      rw [List.length_append]
      exact pow_le_pow_right₀ (by norm_num) (Nat.le_add_left _ _)
    have hsplit : splitSign (sign ++ (ds ++ [])) = (sign, ds ++ []) :=
      splitSign_append hsign hne hds
    rw [List.append_nil] at hsplit
    have hvalue : powerValue (m :: (sign ++ ds)) ≤ digitsValue ds := by
      unfold powerValue
      rw [List.tail_cons, hsplit]
      rcases hsign with rfl | rfl | rfl <;> simp
    refine .inr ⟨?_, ?_⟩
    · rw [List.length_cons, List.length_append]
      omega
    · rw [List.length_cons, Nat.add_sub_cancel]
      omega

/-- After a point there are only digits. -/
theorem IsPoint.allDigits_tail {point : List Char} (h : IsPoint point) : AllDigits point.tail := by
  cases h with
  | none => exact allDigits_nil
  | some hds => exact hds

/-- The coefficient of a numeral has no more digits than are written. -/
theorem Parts.Proper.coefficient_lt {p : Parts} (hp : p.Proper) :
    p.value.coefficient < 10 ^ (p.whole.length + p.point.tail.length) := by
  have hlt := digitsValue_lt ((allDigits_append _ _).mpr ⟨hp.whole, hp.point.allDigits_tail⟩)
  rwa [List.length_append] at hlt

/-- The text of a numeral is as long as its parts together. -/
theorem Parts.length_text (p : Parts) :
    p.text.length = p.whole.length + p.point.length + p.power.length := by
  rw [Parts.text, List.length_append, List.length_append]

/-- The whole part and the exponent of a numeral of at most three characters are short: if there is
an exponent it has one digit, and so has the numeral in front of it. -/
theorem Parts.Proper.point_lt {p : Parts} (hp : p.Proper) (hlen : p.text.length ≤ 3) :
    p.whole.length + powerValue p.power + 1 ≤ 4 * p.text.length := by
  have hpos : 0 < p.whole.length + p.point.length := by
    rcases hp.digits with hne | hne
    · have := List.length_pos_iff.mpr hne
      omega
    · have := List.length_pos_iff.mpr hne
      rw [List.length_tail] at this
      omega
  rw [Parts.length_text] at hlen ⊢
  rcases hp.power.powerValue_lt with ⟨-, hzero⟩ | ⟨hlong, hlt⟩
  · omega
  · rw [show p.power.length - 1 = 1 by omega] at hlt
    omega

/-- The text of a numeral is not empty. -/
theorem Parts.Proper.length_text_pos {p : Parts} (hp : p.Proper) : 0 < p.text.length := by
  obtain ⟨c, cs, htext, -⟩ := hp.exists_cons
  rw [htext]
  exact Nat.succ_pos _

/-- A numeral of one character is a digit, so it has no exponent. -/
theorem Parts.Proper.exponent_of_length {p : Parts} (hp : p.Proper) (hlen : p.text.length ≤ 1) :
    p.value.exponent = 0 := by
  have hvalue : p.value.exponent = powerValue p.power - p.point.tail.length := rfl
  rw [Parts.length_text] at hlen
  rw [hvalue, List.length_tail]
  rcases hp.power.powerValue_lt with ⟨-, hzero⟩ | ⟨hlong, -⟩ <;> omega

/-- A numeral of at most three characters has a value with at most four times as many places. -/
theorem Parts.Proper.size_lt {p : Parts} (hp : p.Proper) (hlen : p.text.length ≤ 3) :
    2 * p.value.size < (10 ^ (4 * p.text.length) * Rank.one : ℕ) := by
  have hc : (p.value.coefficient : ℚ) < 10 ^ (p.whole.length + p.point.tail.length : ℤ) := by
    exact_mod_cast hp.coefficient_lt
  have hpoint := hp.point_lt hlen
  have hexp : p.value.exponent = powerValue p.power - p.point.tail.length := rfl
  have hvalue : 2 * (p.value.coefficient * 10 ^ p.value.exponent : ℚ) <
      10 ^ (4 * p.text.length : ℤ) := by
    calc 2 * (p.value.coefficient * 10 ^ p.value.exponent : ℚ)
        < 10 * (10 ^ (p.whole.length + p.point.tail.length : ℤ) * 10 ^ p.value.exponent) := by
          gcongr
          norm_num
      _ = 10 ^ (p.whole.length + powerValue p.power + 1 : ℤ) := by
          rw [hexp, ← zpow_add₀ (by norm_num), ← zpow_one_add₀ (by norm_num)]
          congr 1
          ring
      _ ≤ 10 ^ (4 * p.text.length : ℤ) := zpow_le_zpow_right₀ (by norm_num) hpoint
  have hone : (0 : ℚ) < Rank.one := by exact_mod_cast Rank.one_pos
  calc 2 * p.value.size = 2 * (p.value.coefficient * 10 ^ p.value.exponent) * Rank.one := by
        rw [size, ← mul_assoc]
    _ < 10 ^ (4 * p.text.length : ℤ) * Rank.one := mul_lt_mul_of_pos_right hvalue hone
    _ = (10 ^ (4 * p.text.length) * Rank.one : ℕ) := by
        push_cast
        rw [← zpow_natCast]
        push_cast
        rfl

end Numeral

namespace Finite

/-- A whole number that is no short integer has more than sixteen digits. -/
theorem le_magnitude_of_dvd {x : Finite} (hlong : ¬x.isShortInteger = true)
    (hwhole : Rank.one ∣ x.magnitude) : 10 ^ 16 * Rank.one ≤ x.magnitude := by
  by_contra hlt
  apply hlong
  simp only [isShortInteger, isWhole, Bool.and_eq_true, decide_eq_true_eq, Nat.pow_eq]
  generalize Rank.one = one at hwhole hlt ⊢
  exact ⟨Nat.mod_eq_zero_of_dvd hwhole, not_le.mp hlt⟩

/-- A double with a numeral of at most three characters is below ten to four times as many. -/
theorem magnitude_lt_of_length {x : Finite} {p : Numeral.Parts} (hp : p.Proper)
    (hrank : p.value.rank = x.rank) (hlen : p.text.length ≤ 3) :
    x.magnitude < 10 ^ (4 * p.text.length) * Rank.one := by
  rcases Nat.eq_zero_or_pos x.rank with h0 | h0
  · rw [magnitude_eq_zero_iff.mpr h0]
    exact Nat.mul_pos (Numeral.ten_pow_pos _) Rank.one_pos
  · have hread := Numeral.ticks_rank_le (hrank.symm ▸ h0) (hrank.symm ▸ x.rank_lt)
    rw [hrank] at hread
    exact_mod_cast hread.trans_lt (hp.size_lt hlen)

/-- The digits of a short integer are at most four times as many as the characters of any numeral
that is read as it. -/
theorem length_decimalDigits_magnitude_le {x : Finite} (hshort : x.isShortInteger = true)
    {p : Numeral.Parts} (hp : p.Proper) (hrank : p.value.rank = x.rank) :
    (decimalDigits (x.magnitude / Rank.one)).length ≤ 4 * p.text.length := by
  have hpos := hp.length_text_pos
  rw [length_decimalDigits_le_iff (by omega), Nat.div_lt_iff_lt_mul Rank.one_pos]
  by_cases hlen : p.text.length ≤ 3
  · exact magnitude_lt_of_length hp hrank hlen
  · simp only [isShortInteger, Bool.and_eq_true, decide_eq_true_eq, Nat.pow_eq] at hshort
    exact hshort.2.trans_le (Nat.mul_le_mul_right _ (Nat.pow_le_pow_right (by decide) (by omega)))

/-- A double that is read from a numeral of one character is a short integer. -/
theorem two_le_length_of_long {x : Finite} (hlong : ¬x.isShortInteger = true) {p : Numeral.Parts}
    (hp : p.Proper) (hrank : p.value.rank = x.rank) : 2 ≤ p.text.length := by
  have h0 := Nat.pos_of_ne_zero (rank_ne_zero_of_long hlong)
  by_contra hone
  have hexp : 0 ≤ p.value.exponent := (hp.exponent_of_length (by omega)).ge
  have hwhole := Numeral.one_dvd_ticks_rank (hrank.symm ▸ h0) (hrank.symm ▸ x.rank_lt) hexp
  rw [hrank] at hwhole
  have hlarge := le_magnitude_of_dvd hlong hwhole
  have hsmall := magnitude_lt_of_length hp hrank (by omega)
  have hpow : 10 ^ (4 * p.text.length) ≤ 10 ^ 16 := Nat.pow_le_pow_right (by decide) (by omega)
  generalize Rank.one = one at hlarge hsmall
  exact absurd (hsmall.trans_le (Nat.mul_le_mul_right one hpow)) (not_lt.mpr hlarge)

/-- A double that is no short integer is written with no more digits than any numeral that is read
as it. -/
theorem length_text_shortest_le {x : Finite} (hlong : ¬x.isShortInteger = true)
    {p : Numeral.Parts} (hp : p.Proper) (hrank : p.value.rank = x.rank) :
    (Numeral.shortest x.rank).text.length ≤ 4 * p.text.length := by
  have h0 := Nat.pos_of_ne_zero (rank_ne_zero_of_long hlong)
  have htwo := two_le_length_of_long hlong hp hrank
  refine Numeral.length_text_le htwo ?_ (Numeral.natAbs_point_lt h0 x.rank_lt) fun hexp => ?_
  · rw [length_decimalDigits_le_iff (by omega), ← hrank]
    refine Numeral.coefficient_shortest_lt (hrank.symm ▸ h0) (hrank.symm ▸ x.rank_lt) ?_
    refine hp.coefficient_lt.trans_le (Nat.pow_le_pow_right (by decide) ?_)
    rw [Numeral.Parts.length_text, List.length_tail]
    omega
  · have hself := Numeral.rank_shortest x.rank
    have hwhole := Numeral.one_dvd_ticks_rank (hself.symm ▸ h0) (hself.symm ▸ x.rank_lt) hexp
    rw [hself] at hwhole
    exact Numeral.sixteen_lt_point x.rank_lt (le_magnitude_of_dvd hlong hwhole)

/-- The text of a double that has no minus sign is at most four times as long as any numeral that is
read as the double. -/
theorem length_formulaText_le {x : Finite} (hx : x.negative = false) {p : Numeral.Parts}
    (hp : p.Proper) (hrank : p.value.rank = x.rank) :
    x.formulaText.toList.length ≤ 4 * p.text.length := by
  have hsign : ¬ x.ticks < 0 := by simp [ticks_neg_iff, hx]
  unfold formulaText
  split_ifs with hshort
  · rw [String.toList_ofList, decide_eq_false hsign, signed, if_neg Bool.false_ne_true]
    exact length_decimalDigits_magnitude_le hshort hp hrank
  · rw [text, String.toList_ofList, hx, signed, if_neg Bool.false_ne_true]
    exact length_text_shortest_le hshort hp hrank

end Finite

end PayrollFormula
