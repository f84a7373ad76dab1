import Mathlib.Algebra.Order.Ring.Nat
import Mathlib.Data.List.Induction
import Mathlib.Data.List.TakeWhile
import PayrollFormula.Number.Written

/-!
# Written numerals are split off whole

A text that has the parts of a written numeral is split off as these parts, whatever text comes
after it, unless that continues the numeral (`Parts.Proper.split_text_append`), and nothing else is
ever split off (`eq_append_of_split`). The digits of a number are read as the number that they
write (`digitsValue_decimalDigits`).
-/

set_option autoImplicit false

namespace PayrollFormula

/-! ## Digits -/

/-- Whether a text has no characters but digits. -/
def AllDigits (cs : List Char) : Prop := ∀ c ∈ cs, isDigit c = true

/-- The empty text has digits only. -/
@[simp] theorem allDigits_nil : AllDigits [] := by
  simp [AllDigits]

/-- Characters are digits if the first and the others are. -/
@[simp] theorem allDigits_cons (c : Char) (cs : List Char) :
    AllDigits (c :: cs) ↔ isDigit c = true ∧ AllDigits cs := by
  simp [AllDigits]

/-- Characters and others are digits if both are. -/
@[simp] theorem allDigits_append (cs ds : List Char) :
    AllDigits (cs ++ ds) ↔ AllDigits cs ∧ AllDigits ds := by
  simp [AllDigits, or_imp, forall_and]

/-- Zeros are digits. -/
theorem allDigits_zeros (k : ℕ) : AllDigits (List.replicate k '0') := by
  intro c hc
  rw [List.eq_of_mem_replicate hc]
  rfl

/-- A number is written with digits. -/
theorem allDigits_decimalDigits (n : ℕ) : AllDigits (decimalDigits n) := by
  intro c hc
  have h := Nat.isDigit_of_mem_toDigits (by decide) (by decide) hc
  simpa [isDigit, Char.isDigit, Char.le_def] using h

/-- A number has at least one digit. -/
theorem decimalDigits_ne_nil (n : ℕ) : decimalDigits n ≠ [] := Nat.toDigits_ne_nil

/-- A number has at most so many digits exactly if it is below that power of ten. -/
theorem length_decimalDigits_le_iff {n k : ℕ} (hk : 0 < k) :
    (decimalDigits n).length ≤ k ↔ n < 10 ^ k :=
  Nat.length_toDigits_le_iff (by decide) hk

/-- Digits have the value that the library gives them. -/
theorem digitsValue_eq (ds : List Char) : digitsValue ds = Nat.ofDigitChars 10 ds 0 := rfl

/-- The digits of a number have its value. -/
@[simp] theorem digitsValue_decimalDigits (n : ℕ) : digitsValue (decimalDigits n) = n :=
  Nat.ofDigitChars_ten_toDigits

/-- Zeros before digits do not change their value. -/
theorem digitsValue_zeros_append (k : ℕ) (ds : List Char) :
    digitsValue (List.replicate k '0' ++ ds) = digitsValue ds := by
  rw [digitsValue_eq, Nat.ofDigitChars_append, Nat.ofDigitChars_replicate_zero, Nat.mul_zero,
    digitsValue_eq]

/-- Each zero after digits multiplies their value by ten. -/
theorem digitsValue_append_zeros (ds : List Char) (k : ℕ) :
    digitsValue (ds ++ List.replicate k '0') = digitsValue ds * 10 ^ k := by
  rw [digitsValue_eq, Nat.ofDigitChars_append, Nat.ofDigitChars_replicate_zero, Nat.mul_comm,
    digitsValue_eq]

/-- The value of a digit is at most nine. -/
theorem sub_le_of_isDigit {c : Char} (h : isDigit c = true) : c.toNat - '0'.toNat ≤ 9 := by
  simp only [isDigit, Char.le_def, UInt32.le_iff_toNat_le, Bool.and_eq_true, decide_eq_true_eq] at h
  have h9 : ('9' : Char).val.toNat = 57 := rfl
  have h0 : ('0' : Char).toNat = 48 := rfl
  unfold Char.toNat at h0 ⊢
  omega

/-- Digits have a value below the power of ten of their number. -/
theorem digitsValue_lt {ds : List Char} (h : AllDigits ds) : digitsValue ds < 10 ^ ds.length := by
  induction ds using List.reverseRecOn with
  | nil => exact Nat.one_pos
  | append_singleton ds c ih =>
    obtain ⟨hds, hc⟩ := (allDigits_append ds [c]).mp h
    have hdigit := sub_le_of_isDigit (hc c List.mem_cons_self)
    have hlast : digitsValue (ds ++ [c]) = 10 * digitsValue ds + (c.toNat - '0'.toNat) := by
      simp [digitsValue]
    rw [hlast, List.length_append, List.length_singleton, Nat.pow_succ]
    have hfirst := ih hds
    omega

/-! ## Where a run of characters ends -/

/-- Whether a text does not go on with a character of a class. -/
def Stops (p : Char → Bool) (cs : List Char) : Prop := ∀ c, cs.head? = some c → p c = false

/-- The end of a text does not go on. -/
@[simp] theorem stops_nil (p : Char → Bool) : Stops p [] := by
  simp [Stops]

/-- A text does not go on with a class if its first character is not of the class. -/
@[simp] theorem stops_cons (p : Char → Bool) (c : Char) (cs : List Char) :
    Stops p (c :: cs) ↔ p c = false := by
  simp [Stops]

/-- A text that does not go on with a class does not with a smaller one. -/
theorem Stops.mono {p q : Char → Bool} {cs : List Char} (h : Stops p cs)
    (hpq : ∀ c, p c = false → q c = false) : Stops q cs :=
  fun c hc => hpq c (h c hc)

/-- Characters of a class are taken from a text as far as they go. -/
theorem takeWhile_append_stops {p : Char → Bool} {cs rest : List Char} (hcs : ∀ c ∈ cs, p c = true)
    (hrest : Stops p rest) : (cs ++ rest).takeWhile p = cs := by
  rw [List.takeWhile_append_of_pos hcs]
  cases rest with
  | nil => simp
  | cons c rest => simp_all

/-- Characters of a class are dropped from a text as far as they go. -/
theorem dropWhile_append_stops {p : Char → Bool} {cs rest : List Char} (hcs : ∀ c ∈ cs, p c = true)
    (hrest : Stops p rest) : (cs ++ rest).dropWhile p = rest := by
  rw [List.dropWhile_append_of_pos hcs]
  cases rest with
  | nil => simp
  | cons c rest => simp_all

namespace Numeral

/-! ## The parts of a numeral -/

/-- Whether a text is nothing or a written exponent: a mark, an optional sign and digits. -/
inductive IsPower : List Char → Prop where
  | none : IsPower []
  | some {m : Char} {sign ds : List Char} :
      (m = 'e' ∨ m = 'E') → (sign = [] ∨ sign = ['+'] ∨ sign = ['-']) → ds ≠ [] →
      AllDigits ds → IsPower (m :: (sign ++ ds))

/-- Whether a text is nothing or a point with digits, of which there need be none. -/
inductive IsPoint : List Char → Prop where
  | none : IsPoint []
  | some {ds : List Char} : AllDigits ds → IsPoint ('.' :: ds)

/-- Whether parts are those of a written numeral, which has a digit before or after the point. -/
structure Parts.Proper (p : Parts) : Prop where
  whole : AllDigits p.whole
  point : IsPoint p.point
  power : IsPower p.power
  digits : p.whole ≠ [] ∨ p.point.tail ≠ []

/-- Whether a character can continue a numeral. -/
def continues (c : Char) : Bool := isDigit c || c = '.' || c = 'e' || c = 'E'

/-- A sign before digits is split off. -/
theorem splitSign_append {sign ds rest : List Char}
    (hsign : sign = [] ∨ sign = ['+'] ∨ sign = ['-']) (hne : ds ≠ []) (hds : AllDigits ds) :
    splitSign (sign ++ (ds ++ rest)) = (sign, ds ++ rest) := by
  rcases hsign with rfl | rfl | rfl
  · obtain ⟨d, ds, rfl⟩ := List.exists_cons_of_ne_nil hne
    have hd : isDigit d = true := (allDigits_cons d ds |>.mp hds).1
    have hplus : d ≠ '+' := by rintro rfl; simp [isDigit] at hd
    have hminus : d ≠ '-' := by rintro rfl; simp [isDigit] at hd
    simp [splitSign, hplus, hminus]
  · rfl
  · rfl

/-- A power that does not go on is split off. -/
theorem splitPower_append {power rest : List Char} (hpower : IsPower power)
    (hrest : Stops continues rest) : splitPower (power ++ rest) = (power, rest) := by
  cases hpower with
  | none =>
    cases rest with
    | nil => rfl
    | cons c rest =>
      have hc : continues c = false := (stops_cons _ _ _).mp hrest
      simp only [continues, Bool.or_eq_false_iff, decide_eq_false_iff_not] at hc
      simp [splitPower, hc]
  | @some m sign ds hm hsign hne hds =>
    have hstop : Stops isDigit rest := hrest.mono fun c hc => by simp_all [continues]
    have hsplit : splitSign (sign ++ (ds ++ rest)) = (sign, ds ++ rest) :=
      splitSign_append hsign hne hds
    rw [List.cons_append, List.append_assoc]
    simp only [splitPower, hsplit, takeWhile_append_stops hds hstop,
      dropWhile_append_stops hds hstop]
    rw [if_pos ⟨hm, hne⟩]

/-- Neither a point nor digits come after the point and its digits. -/
theorem stops_power_append {power rest : List Char} (hpower : IsPower power)
    (hrest : Stops continues rest) : Stops (fun c => isDigit c || c = '.') (power ++ rest) := by
  cases hpower with
  | none => exact hrest.mono fun c hc => by simp_all [continues]
  | some hm => rcases hm with rfl | rfl <;> simp [isDigit]

/-- The digits in front of a point, or of what comes after one, end there. -/
theorem IsPoint.stops_append {point rest : List Char} (hpoint : IsPoint point)
    (hrest : Stops (fun c => isDigit c || c = '.') rest) : Stops isDigit (point ++ rest) := by
  cases hpoint with
  | none => exact hrest.mono fun c hc => by simp_all
  | some => simp [isDigit]

/-- A point and its digits that do not go on are split off. -/
theorem splitPoint_append {point rest : List Char} (hpoint : IsPoint point)
    (hrest : Stops (fun c => isDigit c || c = '.') rest) :
    splitPoint (point ++ rest) = (point, rest) := by
  cases hpoint with
  | none =>
    cases rest with
    | nil => rfl
    | cons c rest =>
      have hc : c ≠ '.' := by
        rintro rfl
        simp at hrest
      simp [splitPoint, hc]
  | @some ds hds =>
    have hstop : Stops isDigit rest := hrest.mono fun c hc => by simp_all
    simp [splitPoint, takeWhile_append_stops hds hstop, dropWhile_append_stops hds hstop]

/-- The text of a numeral is split off as its parts if the text after it does not continue it. -/
theorem Parts.Proper.split_text_append {p : Parts} (hp : p.Proper) {rest : List Char}
    (hrest : Stops continues rest) : split (p.text ++ rest) = some (p, rest) := by
  obtain ⟨hwhole, hpoint, hpower, hdigits⟩ := hp
  have hafter := stops_power_append hpower hrest
  have hstop := hpoint.stops_append hafter
  unfold split Parts.text
  simp only [List.append_assoc, takeWhile_append_stops hwhole hstop,
    dropWhile_append_stops hwhole hstop, splitPoint_append hpoint hafter,
    splitPower_append hpower hrest]
  rw [if_neg (not_and_or.mpr hdigits)]

/-- A written numeral is read as its value. -/
theorem Parts.Proper.read_text {p : Parts} (hp : p.Proper) : read p.text = some p.value := by
  have h := hp.split_text_append (stops_nil _)
  rw [List.append_nil] at h
  simp [read, h]

/-! ## What is split off -/

/-- A text is the sign split off and the rest. -/
theorem append_splitSign (cs : List Char) :
    (splitSign cs).1 ++ (splitSign cs).2 = cs ∧
      ((splitSign cs).1 = [] ∨ (splitSign cs).1 = ['+'] ∨ (splitSign cs).1 = ['-']) := by
  unfold splitSign
  split <;> simp

/-- A text is the point and its digits split off and the rest. -/
theorem append_splitPoint (cs : List Char) :
    (splitPoint cs).1 ++ (splitPoint cs).2 = cs ∧ IsPoint (splitPoint cs).1 := by
  unfold splitPoint
  split
  · exact ⟨by simp, .some fun c hc => List.mem_takeWhile_imp hc⟩
  · exact ⟨rfl, .none⟩

/-- A text is the power split off and the rest. -/
theorem append_splitPower (cs : List Char) :
    (splitPower cs).1 ++ (splitPower cs).2 = cs ∧ IsPower (splitPower cs).1 := by
  cases cs with
  | nil => exact ⟨rfl, .none⟩
  | cons m cs =>
    obtain ⟨happend, hsign⟩ := append_splitSign cs
    simp only [splitPower]
    split_ifs with h
    · refine ⟨?_, .some h.1 hsign h.2 fun c hc => List.mem_takeWhile_imp hc⟩
      rw [List.cons_append, List.append_assoc, List.takeWhile_append_dropWhile, happend]
    · exact ⟨rfl, .none⟩

/-- What is split off as a numeral is one, and the rest is left. -/
theorem eq_append_of_split {cs rest : List Char} {p : Parts} (h : split cs = some (p, rest)) :
    cs = p.text ++ rest ∧ p.Proper := by
  unfold split at h
  simp only at h
  split_ifs at h with hnone
  obtain ⟨hpointed, hpoint⟩ := append_splitPoint (cs.dropWhile isDigit)
  obtain ⟨hpowered, hpower⟩ := append_splitPower (splitPoint (cs.dropWhile isDigit)).2
  cases h
  refine ⟨?_, fun c hc => List.mem_takeWhile_imp hc, hpoint, hpower, not_and_or.mp hnone⟩
  simp only [Parts.text]
  rw [List.append_assoc, hpowered, List.append_assoc, hpointed, List.takeWhile_append_dropWhile]

/-! ## The longest numeral -/

/-- At least the characters of a class at the start are taken. -/
theorem length_le_takeWhile {p : Char → Bool} {cs : List Char} (hcs : ∀ c ∈ cs, p c = true)
    (rest : List Char) : cs.length ≤ ((cs ++ rest).takeWhile p).length := by
  rw [List.takeWhile_append_of_pos hcs, List.length_append]
  exact Nat.le_add_right _ _

/-- A text is not empty if it is no shorter than one that is not. -/
theorem ne_nil_of_length_le {as bs : List Char} (h : as.length ≤ bs.length) (has : as ≠ []) :
    bs ≠ [] := by
  have hpos := List.length_pos_iff.mpr has
  exact List.length_pos_iff.mp (by omega)

/-- At least as much is split off as an exponent as any exponent in front of the text. -/
theorem IsPower.length_le_splitPower {power : List Char} (hpower : IsPower power)
    (rest : List Char) : power.length ≤ (splitPower (power ++ rest)).1.length := by
  cases hpower with
  | none => exact Nat.zero_le _
  | @some m sign ds hm hsign hne hds =>
    have hlong := length_le_takeWhile hds rest
    rw [List.cons_append, List.append_assoc]
    simp only [splitPower, splitSign_append hsign hne hds]
    rw [if_pos ⟨hm, ne_nil_of_length_le hlong hne⟩]
    simpa using hlong

/-- An exponent that is not empty stops the digits in front of it. -/
theorem IsPower.stops_append {power : List Char} (hpower : IsPower power) (hne : power ≠ [])
    (rest : List Char) : Stops (fun c => isDigit c || c = '.') (power ++ rest) := by
  cases hpower with
  | none => exact absurd rfl hne
  | some hm => rcases hm with rfl | rfl <;> simp [isDigit]

/-- At least as much is split off as a numeral as any numeral in front of the text. -/
theorem Parts.Proper.exists_split {p : Parts} (hp : p.Proper) (rest : List Char) :
    ∃ q after, split (p.text ++ rest) = some (q, after) ∧ p.text.length ≤ q.text.length := by
  obtain ⟨whole, point, power⟩ := p
  obtain ⟨hwhole, hpoint, hpower, hdigits⟩ := hp
  simp only at hwhole hpoint hpower hdigits
  have hsplit {cs : List Char} (hcs : cs.takeWhile isDigit ≠ [] ∨
      (splitPoint (cs.dropWhile isDigit)).1.tail ≠ []) :
      split cs = some (⟨cs.takeWhile isDigit, (splitPoint (cs.dropWhile isDigit)).1,
        (splitPower (splitPoint (cs.dropWhile isDigit)).2).1⟩,
        (splitPower (splitPoint (cs.dropWhile isDigit)).2).2) := by
    unfold split
    rw [if_neg (not_and_or.mpr hcs)]
  simp only [text, List.append_assoc]
  by_cases hnone : power = []
  · subst hnone
    cases hpoint with
    | none =>
      have hlong := length_le_takeWhile hwhole rest
      simp only [List.nil_append]
      refine ⟨_, _, hsplit (.inl (ne_nil_of_length_le hlong (by simpa using hdigits))), ?_⟩
      simp only [List.length_append, List.length_nil]
      omega
    | @some ds hds =>
      have hlong := length_le_takeWhile hds rest
      have hstop : Stops isDigit ('.' :: (ds ++ rest)) := by simp [isDigit]
      have hsplit' := @hsplit (whole ++ '.' :: (ds ++ rest))
      rw [takeWhile_append_stops hwhole hstop, dropWhile_append_stops hwhole hstop,
        splitPoint] at hsplit'
      refine ⟨_, _, hsplit' (hdigits.imp_right (ne_nil_of_length_le hlong)), ?_⟩
      simp only [List.length_append, List.length_cons, List.length_nil]
      omega
  · -- Digits and point end where the exponent starts, and only this may go on.
    have hlong := hpower.length_le_splitPower rest
    have hafter := hpower.stops_append hnone rest
    have hstop := hpoint.stops_append hafter
    have hsplit' := @hsplit (whole ++ (point ++ (power ++ rest)))
    rw [takeWhile_append_stops hwhole hstop, dropWhile_append_stops hwhole hstop,
      splitPoint_append hpoint hafter] at hsplit'
    refine ⟨_, _, hsplit' hdigits, ?_⟩
    simp only [List.length_append]
    omega

/-- What holds of digits, of the point and of the marks and signs of exponents holds of every
character of a written numeral. -/
theorem Parts.Proper.forall_mem_text {p : Parts} (hp : p.Proper) {P : Char → Prop}
    (hdigit : ∀ c, isDigit c = true → P c) (hmark : ∀ c ∈ ['.', 'e', 'E', '+', '-'], P c) :
    ∀ c ∈ p.text, P c := by
  have hdigits {ds : List Char} (h : AllDigits ds) : ∀ c ∈ ds, P c :=
    fun c hc => hdigit c (h c hc)
  obtain ⟨whole, point, power⟩ := p
  obtain ⟨hwhole, hpoint, hpower, -⟩ := hp
  simp only [Parts.text, List.forall_mem_append] at hwhole hpoint hpower ⊢
  refine ⟨⟨hdigits hwhole, ?_⟩, ?_⟩
  · cases hpoint with
    | none => exact List.forall_mem_nil _
    | some hds => exact List.forall_mem_cons.mpr ⟨hmark '.' (by decide), hdigits hds⟩
  · cases hpower with
    | none => exact List.forall_mem_nil _
    | some hm hsign _ hds =>
      refine List.forall_mem_cons.mpr ⟨?_, List.forall_mem_append.mpr ⟨?_, hdigits hds⟩⟩
      · rcases hm with rfl | rfl
        · exact hmark 'e' (by decide)
        · exact hmark 'E' (by decide)
      · rcases hsign with rfl | rfl | rfl
        · exact List.forall_mem_nil _
        · exact List.forall_mem_singleton.mpr (hmark '+' (by decide))
        · exact List.forall_mem_singleton.mpr (hmark '-' (by decide))

/-- A written numeral has a character, and starts with a digit or a point. -/
theorem Parts.Proper.exists_cons {p : Parts} (hp : p.Proper) :
    ∃ c cs, p.text = c :: cs ∧ (isDigit c = true ∨ c = '.') := by
  obtain ⟨whole, point, power⟩ := p
  obtain ⟨hwhole, hpoint, -, hdigits⟩ := hp
  simp only [Parts.text] at hwhole hpoint hdigits ⊢
  cases whole with
  | cons c cs => exact ⟨c, _, rfl, .inl ((allDigits_cons c cs).mp hwhole).1⟩
  | nil =>
    cases hpoint with
    | none => simp at hdigits
    | some hds => exact ⟨'.', _, rfl, .inr rfl⟩

end Numeral

end PayrollFormula
