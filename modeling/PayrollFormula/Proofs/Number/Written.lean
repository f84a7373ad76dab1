import Mathlib.Tactic.Ring
import PayrollFormula.Number.Reading
import PayrollFormula.Proofs.Number.Exact
import PayrollFormula.Proofs.Number.Numeral
import PayrollFormula.Proofs.Number.Shortest
import PayrollFormula.Proofs.Text.Names

/-!
# The texts of doubles are numerals

Whatever its form, the text of a numeral is a written numeral of the same rank and value
(`exists_parts_text`). So the text of a double inside a formula is a sign and a written numeral of
its rank (`exists_parts_formulaText`), and is read back as the same number; and read as a decimal
number, the text of a double on its own has exactly the value of its shortest numeral
(`toRat?_read?_text`).
-/

set_option autoImplicit false

namespace PayrollFormula

namespace Numeral

/-! ## The forms of a numeral -/

/-- Digits alone have their value as a coefficient. -/
theorem value_whole (ds : List Char) : (Parts.mk ds [] []).value = ⟨digitsValue ds, 0⟩ := by
  simp [Parts.value, powerValue, splitSign, digitsValue]

/-- Digits after a point count as places of the coefficient. -/
theorem value_point (whole ds : List Char) :
    (Parts.mk whole ('.' :: ds) []).value = ⟨digitsValue (whole ++ ds), -ds.length⟩ := by
  simp [Parts.value, powerValue, splitSign, digitsValue]

/-- Digits alone are a numeral. -/
theorem proper_whole {ds : List Char} (hne : ds ≠ []) (hds : AllDigits ds) :
    (Parts.mk ds [] []).Proper :=
  ⟨hds, .none, .none, .inl hne⟩

/-- Digits with others after a point are a numeral. -/
theorem proper_point {whole ds : List Char} (hne : whole ≠ []) (hwhole : AllDigits whole)
    (hds : AllDigits ds) : (Parts.mk whole ('.' :: ds) []).Proper :=
  ⟨hwhole, .some hds, .none, .inl hne⟩

/-- The mark of an exponent is a written exponent with its value. -/
theorem isPower_exponentMark (e : ℤ) :
    IsPower (exponentMark e) ∧ powerValue (exponentMark e) = e := by
  obtain ⟨ds, hds, hne, hall, hvalue⟩ : ∃ ds, ds = (if (decimalDigits e.natAbs).length < 2 then
      '0' :: decimalDigits e.natAbs else decimalDigits e.natAbs) ∧ ds ≠ [] ∧ AllDigits ds ∧
      digitsValue ds = e.natAbs := by
    refine ⟨_, rfl, ?_⟩
    split_ifs
    · refine ⟨by simp, ?_, ?_⟩
      · simp [allDigits_decimalDigits, isDigit]
      · have h := digitsValue_zeros_append 1 (decimalDigits e.natAbs)
        rw [digitsValue_decimalDigits] at h
        exact h
    · exact ⟨decimalDigits_ne_nil _, allDigits_decimalDigits _, digitsValue_decimalDigits _⟩
  have hmark : exponentMark e = 'e' :: ([if e < 0 then '-' else '+'] ++ ds) := by
    rw [hds]
    rfl
  rw [hmark]
  by_cases he : e < 0
  · rw [if_pos he]
    have hminus : powerValue ('e' :: (['-'] ++ ds)) = -(digitsValue ds : ℤ) := rfl
    exact ⟨.some (.inl rfl) (.inr (.inr rfl)) hne hall, by omega⟩
  · rw [if_neg he]
    have hplus : powerValue ('e' :: (['+'] ++ ds)) = digitsValue ds := rfl
    exact ⟨.some (.inl rfl) (.inr (.inl rfl)) hne hall, by omega⟩

/-- A numeral with a power of ten that is not too great keeps its rank if the power is multiplied
out and a decimal place added. -/
theorem rank_multiplied_out {c k : ℕ} (hk : k ≤ 400) :
    (Numeral.mk (c * 10 ^ (k + 1)) (-1)).rank = (Numeral.mk c k).rank := by
  by_cases hc : c = 0
  · simp [hc]
  · have hc' : c * 10 ^ (k + 1) ≠ 0 := Nat.mul_ne_zero hc (Nat.pow_pos (by decide)).ne'
    refine rank_congr hc' hc (by simp) (by simp only; omega) (by simp only; omega)
      (by simp only; omega) ?_
    have hlow : (-1 : ℤ).toNat = 0 := rfl
    have hhigh : (- -(1 : ℤ)).toNat = 1 := rfl
    simp only [hlow, hhigh, Int.toNat_natCast, show (-(k : ℤ)).toNat = 0 by omega]
    ring

/-- A power of ten may be multiplied out to a coefficient with one place. -/
theorem toRat_multiplied_out (c k : ℕ) :
    (Numeral.mk (c * 10 ^ (k + 1)) (-1)).toRat = (Numeral.mk c k).toRat := by
  unfold toRat
  push_cast
  rw [zpow_natCast, zpow_neg_one, pow_succ]
  ring

/-! ## The text of a numeral -/

/-- Whether a numeral may be written in place of another: it is read as the same rank and stands for
the same number. -/
structure Matches (n m : Numeral) : Prop where
  rank : n.rank = m.rank
  toRat : n.toRat = m.toRat

/-- Digits in positional form are a written numeral that matches their number. -/
theorem exists_parts_positional {ds : List Char} (hne : ds ≠ []) (hall : AllDigits ds) {point : ℤ}
    (hpoint : point ≤ 400) :
    ∃ p : Parts, positional ds point = p.text ∧ p.Proper ∧
      p.value.Matches ⟨digitsValue ds, point - ds.length⟩ := by
  have hlen : 0 < ds.length := List.length_pos_iff.mpr hne
  unfold positional
  split_ifs with hsmall hlarge
  · -- The number is below one, so zeros may stand between the point and its digits.
    obtain ⟨k, rfl⟩ : ∃ k : ℕ, point = -k := ⟨(-point).toNat, by omega⟩
    rw [Int.neg_neg, Int.toNat_natCast]
    refine ⟨⟨['0'], '.' :: (List.replicate k '0' ++ ds), []⟩, by simp [Parts.text], ?_, ?_⟩
    · exact proper_point (by simp) (allDigits_zeros 1) (by simp [allDigits_zeros, hall])
    · have hdigits := digitsValue_zeros_append (k + 1) ds
      rw [List.replicate_succ, List.cons_append] at hdigits
      have hexp : -((k + ds.length : ℕ) : ℤ) = -k - ds.length := by omega
      rw [value_point, List.singleton_append, hdigits, List.length_append, List.length_replicate,
        hexp]
      exact ⟨rfl, rfl⟩
  · -- The number is whole, so zeros may stand behind its digits, and one stands after the point.
    obtain ⟨k, rfl⟩ : ∃ k : ℕ, point = (ds.length + k : ℕ) := ⟨point.toNat - ds.length, by omega⟩
    rw [Int.toNat_natCast, Nat.add_sub_cancel_left]
    refine ⟨⟨ds ++ List.replicate k '0', ['.', '0'], []⟩, by simp [Parts.text], ?_, ?_⟩
    · exact proper_point (by simp [hne]) (by simp [hall, allDigits_zeros]) (allDigits_zeros 1)
    · have hdigits := digitsValue_append_zeros ds (k + 1)
      rw [List.replicate_succ', ← List.append_assoc] at hdigits
      rw [value_point, hdigits]
      have hk : ((ds.length + k : ℕ) : ℤ) - ds.length = k := by omega
      rw [hk]
      exact ⟨rank_multiplied_out (by omega), toRat_multiplied_out _ k⟩
  · -- The point stands between the digits.
    obtain ⟨k, rfl⟩ : ∃ k : ℕ, point = k := ⟨point.toNat, by omega⟩
    rw [Int.toNat_natCast]
    refine ⟨⟨ds.take k, '.' :: ds.drop k, []⟩, by simp [Parts.text], ?_, ?_⟩
    · have hmem (c : Char) : (c ∈ ds.take k → c ∈ ds) ∧ (c ∈ ds.drop k → c ∈ ds) :=
        ⟨List.mem_of_mem_take, List.mem_of_mem_drop⟩
      refine proper_point ?_ (fun c hc => hall c ((hmem c).1 hc)) fun c hc => hall c ((hmem c).2 hc)
      rw [ne_eq, List.take_eq_nil_iff]
      rintro (rfl | h)
      · exact hsmall le_rfl
      · exact hne h
    · rw [value_point, List.take_append_drop, List.length_drop]
      have hexp : -((ds.length - k : ℕ) : ℤ) = k - ds.length := by omega
      rw [hexp]
      exact ⟨rfl, rfl⟩

/-- Digits in scientific form are a written numeral with the value that their number has. -/
theorem exists_parts_scientific {ds : List Char} (hne : ds ≠ []) (hall : AllDigits ds) (e : ℤ) :
    ∃ p : Parts, scientific ds e = p.text ∧ p.Proper ∧
      p.value = ⟨digitsValue ds, e + 1 - ds.length⟩ := by
  obtain ⟨hpower, hvalue⟩ := isPower_exponentMark e
  match ds, hne with
  | [d], _ =>
    refine ⟨⟨[d], [], exponentMark e⟩, by simp [scientific, Parts.text], ?_, ?_⟩
    · exact ⟨hall, .none, hpower, .inl (by simp)⟩
    · simp [Parts.value, hvalue]
  | d :: d' :: rest, _ =>
    obtain ⟨hd, hrest⟩ := (allDigits_cons d (d' :: rest)).mp hall
    refine ⟨⟨[d], '.' :: d' :: rest, exponentMark e⟩, by simp [scientific, Parts.text], ?_, ?_⟩
    · exact ⟨by simpa using hd, .some hrest, hpower, .inl (by simp)⟩
    · simp only [Parts.value, hvalue, List.tail_cons, List.singleton_append, List.length_cons]
      congr 1
      omega

/-- The text of a numeral is a written numeral that matches it. -/
theorem exists_parts_text (n : Numeral) :
    ∃ p : Parts, n.text = p.text ∧ p.Proper ∧ p.value.Matches n := by
  have hne := decimalDigits_ne_nil n.coefficient
  have hall := allDigits_decimalDigits n.coefficient
  unfold text
  simp only
  split_ifs with hpoint
  · have hle : (decimalDigits n.coefficient).length + n.exponent ≤ 400 := by omega
    obtain ⟨p, htext, hp, hvalue⟩ := exists_parts_positional hne hall hle
    rw [digitsValue_decimalDigits, add_sub_cancel_left] at hvalue
    exact ⟨p, htext, hp, hvalue⟩
  · obtain ⟨p, htext, hp, hvalue⟩ := exists_parts_scientific hne hall
      ((decimalDigits n.coefficient).length + n.exponent - 1)
    rw [digitsValue_decimalDigits, sub_add_cancel, add_sub_cancel_left] at hvalue
    exact ⟨p, htext, hp, hvalue ▸ ⟨rfl, rfl⟩⟩

end Numeral

namespace Finite

/-- Only rank zero has a magnitude of zero. -/
theorem magnitude_eq_zero_iff {x : Finite} : x.magnitude = 0 ↔ x.rank = 0 := by
  constructor
  · intro h
    by_contra hne
    have := Rank.ticks_pos (Nat.pos_of_ne_zero hne)
    unfold magnitude at h
    omega
  · intro h
    rw [magnitude, h, Rank.ticks_zero]

/-- A double is below zero exactly if it has a minus sign and is not zero. -/
theorem ticks_neg_iff {x : Finite} : x.ticks < 0 ↔ x.negative = true ∧ x.rank ≠ 0 := by
  rw [ne_eq, ← magnitude_eq_zero_iff]
  unfold ticks
  cases x.negative
  · simp
  · simp only [if_pos, true_and]
    omega

/-- No absolute value is below zero. -/
theorem ticks_abs_nonneg (x : Finite) : 0 ≤ x.abs.ticks := by
  have habs : x.abs.ticks = x.magnitude := rfl
  rw [habs]
  exact Int.natCast_nonneg _

/-- A number that is no short integer is no zero. -/
theorem rank_ne_zero_of_long {x : Finite} (h : ¬x.isShortInteger = true) : x.rank ≠ 0 := by
  intro h0
  apply h
  have hpos : 0 < Nat.pow 10 16 * Rank.one := Nat.mul_pos (by decide) Rank.one_pos
  simp [isShortInteger, isWhole, magnitude_eq_zero_iff.mpr h0, hpos]

/-- A number that is no short integer is below zero exactly if it has a minus sign. -/
theorem ticks_neg_eq_negative (x : Finite) (h : ¬x.isShortInteger = true) :
    decide (x.ticks < 0) = x.negative := by
  rw [Bool.eq_iff_iff, decide_eq_true_iff, ticks_neg_iff]
  simp [rank_ne_zero_of_long h]

/-- The text of a double inside a formula is a minus sign if it is below zero, and a written
numeral of its rank. -/
theorem exists_parts_formulaText (x : Finite) :
    ∃ p : Numeral.Parts, x.formulaText.toList = signed (x.ticks < 0) p.text ∧ p.Proper ∧
      p.value.rank = x.rank := by
  unfold formulaText
  split_ifs with hshort
  · -- A short integer is written by its digits, and its size is a multiple of the one of one.
    have hwhole : x.magnitude % Rank.one = 0 := by
      simp only [isShortInteger, isWhole, Bool.and_eq_true, decide_eq_true_eq] at hshort
      exact hshort.1
    refine ⟨⟨decimalDigits (x.magnitude / Rank.one), [], []⟩, by simp [Numeral.Parts.text],
      Numeral.proper_whole (decimalDigits_ne_nil _) (allDigits_decimalDigits _), ?_⟩
    have hmul := Nat.div_mul_cancel (Nat.dvd_of_mod_eq_zero hwhole)
    rw [Numeral.value_whole, digitsValue_decimalDigits]
    by_cases h0 : x.magnitude / Rank.one = 0
    · rw [h0, Numeral.rank_zero]
      rw [h0, Nat.zero_mul] at hmul
      exact (magnitude_eq_zero_iff.mp hmul.symm).symm
    · rw [Numeral.rank_eq_nearest h0 (by simp) (by simp only; omega)]
      simp only [Int.toNat_zero, Int.neg_zero, Nat.pow_zero, Nat.mul_one, hmul]
      have hround := Rank.nearest_ticks x.rank Nat.one_pos
      rwa [Nat.mul_one] at hround
  · obtain ⟨p, htext, hp, hvalue⟩ := Numeral.exists_parts_text (Numeral.shortest x.rank)
    refine ⟨p, ?_, hp, by rw [hvalue.rank, Numeral.rank_shortest]⟩
    rw [text, String.toList_ofList, x.ticks_neg_eq_negative hshort, htext]

end Finite

/-! ## Texts read as decimal numbers -/

/-- There is nothing to trim in a text without characters of the class. -/
theorem trimmed_eq_self {p : Char → Bool} {cs : List Char} (h : ∀ c ∈ cs, p c = false) :
    trimmed p cs = cs := by
  have hdrop {ds : List Char} (hds : ∀ c ∈ ds, p c = false) : ds.dropWhile p = ds := by
    cases ds with
    | nil => rfl
    | cons d ds => simp [hds d List.mem_cons_self]
  rw [trimmed, hdrop h, hdrop fun c hc => h c (List.mem_reverse.mp hc), List.reverse_reverse]

namespace Numeral

/-- A digit or a point is no letter that a word for a special number starts with, and no sign. -/
theorem not_special {c : Char} (h : isDigit c = true ∨ c = '.') :
    lowerLetter c ∉ ['i', 'n', 's'] ∧ c ∉ ['+', '-'] := by
  rcases h with h | rfl
  · simpa using eq_true_of_isDigit
      (p := fun d => lowerLetter d ∉ ['i', 'n', 's'] ∧ d ∉ ['+', '-']) (by decide) h
  · decide

variable {p : Parts}

/-- A numeral is no word for an infinite or undefined number. -/
theorem Parts.Proper.isWord_eq_false (hp : p.Proper) {word : String}
    (hword : ∃ a ∈ ['i', 'n', 's'], word.toList.head? = some a) : isWord word p.text = false := by
  obtain ⟨c, cs, htext, hc⟩ := hp.exists_cons
  obtain ⟨a, ha, hhead⟩ := hword
  rw [isWord, decide_eq_false_iff_not, htext]
  intro heq
  rw [← heq] at hhead
  obtain rfl : lowerLetter c = a := Option.some.inj hhead
  exact (not_special hc).1 ha

/-- The sign before a numeral is taken off. -/
theorem Parts.Proper.takeSign_signed (hp : p.Proper) (negative : Bool) :
    takeSign (Finite.signed negative p.text) = (negative, p.text) := by
  cases negative with
  | true => rfl
  | false =>
    obtain ⟨c, cs, htext, hc⟩ := hp.exists_cons
    have hsign := (not_special hc).2
    simp only [List.mem_cons, List.not_mem_nil, or_false, not_or] at hsign
    simp [Finite.signed, htext, takeSign, splitSign, hsign]

/-- A numeral with its sign has no blanks around it. -/
theorem Parts.Proper.strip_signed (hp : p.Proper) (negative : Bool) :
    strip (Finite.signed negative p.text) = Finite.signed negative p.text := by
  have hdigit (c : Char) (hc : isDigit c = true) : isBlank c = false := by
    simpa using eq_true_of_isDigit (p := fun d => !isBlank d) (by decide) hc
  have hblank := hp.forall_mem_text hdigit (by simp [isBlank])
  apply trimmed_eq_self
  cases negative with
  | false => exact hblank
  | true => exact List.forall_mem_cons.mpr ⟨by decide, hblank⟩

end Numeral

/-- Read as a decimal number, the text of a finite double has the value of its shortest numeral. -/
theorem Finite.toRat?_read?_text (x : Finite) :
    (Decimal.read? x.text).bind Decimal.toRat? =
      some (signedRat x.negative (Numeral.shortest x.rank).toRat) := by
  obtain ⟨p, htext, hp, hvalue⟩ := Numeral.exists_parts_text (Numeral.shortest x.rank)
  have hchars : x.text.toList = signed x.negative p.text := by
    rw [text, String.toList_ofList, htext]
  have hread : Decimal.read? x.text =
      some (.finite x.negative p.value.coefficient p.value.exponent) := by
    simp [Decimal.read?, hchars, hp.strip_signed, hp.takeSign_signed, hp.isWord_eq_false,
      hp.read_text]
  rw [hread, ← hvalue.toRat]
  rfl

end PayrollFormula
