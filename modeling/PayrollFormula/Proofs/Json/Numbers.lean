import Mathlib.Data.List.Basic
import PayrollFormula.Json.Token
import PayrollFormula.Json.Written
import PayrollFormula.Proofs.Json.Texts
import PayrollFormula.Proofs.Number.Numeral
import PayrollFormula.Proofs.Number.Whole
import PayrollFormula.Proofs.Number.Written
import PayrollFormula.Proofs.Text.Names

/-!
# Numbers written and read

The text of an integer or of a double is a sign and a written numeral in the form that JSON asks
for, `Parts.Standard`: no zero stands in front of other digits, and a point has digits on both
sides. Such a numeral is read as one token, unless what comes after it continues it
(`lexeme_signed`).
-/

set_option autoImplicit false

namespace PayrollFormula

open Numeral

/-! ## Digits -/

/-- The digit of a number between one and nine is not zero. -/
theorem digitChar_ne_zero {d : ℕ} (hlow : d < 10) (hd : d ≠ 0) : d.digitChar ≠ '0' := by
  decide +revert

/-- A number that is not zero does not start with the digit zero. -/
theorem head_decimalDigits {n : ℕ} (hn : n ≠ 0) : (decimalDigits n).head? ≠ some '0' := by
  induction n using Nat.strongRecOn with
  | ind n ih =>
    unfold decimalDigits at ih ⊢
    by_cases hlow : n < 10
    · rw [Nat.toDigits_of_lt_base hlow]
      simpa using digitChar_ne_zero hlow hn
    · have hrest := ih (n / 10) (by omega) (by omega)
      rw [Nat.toDigits_of_base_le (by decide) (Nat.not_lt.mp hlow),
        List.head?_append_of_ne_nil _ Nat.toDigits_ne_nil]
      exact hrest

/-! ## The form of numbers -/

namespace Numeral

/-- Whether parts have the form of a number in JSON. -/
structure Parts.Standard (p : Parts) : Prop where
  proper : p.Proper
  whole : p.whole ≠ []
  zero : p.whole.head? = some '0' → p.whole = ['0']
  point : p.point ≠ ['.']

/-- Whether the text of a number shows that it is no integer. -/
def Parts.IsReal (p : Parts) : Prop := ¬(p.point = [] ∧ p.power = [])

/-- Digits have the form of a number in JSON unless they start with a needless zero. -/
theorem standard_whole {ds : List Char} (hne : ds ≠ []) (hds : AllDigits ds)
    (hzero : ds.head? = some '0' → ds = ['0']) : (Parts.mk ds [] []).Standard :=
  ⟨proper_whole hne hds, hne, hzero, by simp⟩

/-- Digits with others after a point have the form of a number in JSON unless they start with a
needless zero. -/
theorem standard_point {whole ds : List Char} (hne : whole ≠ []) (hwhole : AllDigits whole)
    (hzero : whole.head? = some '0' → whole = ['0']) (hds : AllDigits ds) (hne' : ds ≠ []) :
    (Parts.mk whole ('.' :: ds) []).Standard :=
  ⟨proper_point hne hwhole hds, hne, hzero, by simpa using hne'⟩

/-- Digits written with a point have the form of a number in JSON that is no integer. -/
theorem standard_positional {ds : List Char} (hne : ds ≠ []) (hall : AllDigits ds)
    (hhead : ds.head? ≠ some '0') (point : ℤ) :
    ∃ p : Parts, positional ds point = p.text ∧ p.Standard ∧ p.IsReal := by
  have hreal (whole ds : List Char) : (Parts.mk whole ('.' :: ds) []).IsReal := by
    simp [Parts.IsReal]
  unfold positional
  split_ifs with hsmall hlarge
  · refine ⟨⟨['0'], '.' :: (List.replicate (-point).toNat '0' ++ ds), []⟩, by simp [Parts.text],
      ?_, hreal _ _⟩
    exact standard_point (by decide) (allDigits_zeros 1) (by decide)
      (by simp [allDigits_zeros, hall]) (by simp [hne])
  · refine ⟨⟨ds ++ List.replicate (point.toNat - ds.length) '0', ['.', '0'], []⟩,
      by simp [Parts.text], ?_, hreal _ _⟩
    refine standard_point (by simp [hne]) (by simp [hall, allDigits_zeros]) ?_ (allDigits_zeros 1)
      (by decide)
    rw [List.head?_append_of_ne_nil _ hne]
    exact fun h => absurd h hhead
  · have hlen : 0 < point.toNat ∧ point.toNat < ds.length := by omega
    refine ⟨⟨ds.take point.toNat, '.' :: ds.drop point.toNat, []⟩, by simp [Parts.text], ?_,
      hreal _ _⟩
    refine standard_point ?_ (fun c hc => hall c (List.mem_of_mem_take hc)) ?_
      (fun c hc => hall c (List.mem_of_mem_drop hc)) ?_
    · simp [hne, hlen.1.ne']
    · rw [List.head?_take, if_neg hlen.1.ne']
      exact fun h => absurd h hhead
    · simpa using hlen.2

/-- Digits written with a power of ten have the form of a number in JSON that is no integer. -/
theorem standard_scientific {ds : List Char} (hne : ds ≠ []) (hall : AllDigits ds) (e : ℤ) :
    ∃ p : Parts, scientific ds e = p.text ∧ p.Standard ∧ p.IsReal := by
  have hpower := (isPower_exponentMark e).1
  have hreal (whole point : List Char) : (Parts.mk whole point (exponentMark e)).IsReal := by
    simp [Parts.IsReal, exponentMark]
  match ds, hne with
  | [d], _ =>
    refine ⟨⟨[d], [], exponentMark e⟩, by simp [scientific, Parts.text], ?_, hreal _ _⟩
    exact ⟨⟨hall, .none, hpower, .inl (by simp)⟩, by simp, by simp, by simp⟩
  | d :: d' :: rest, _ =>
    obtain ⟨hd, hrest⟩ := (allDigits_cons d (d' :: rest)).mp hall
    refine ⟨⟨[d], '.' :: d' :: rest, exponentMark e⟩, by simp [scientific, Parts.text], ?_,
      hreal _ _⟩
    exact ⟨⟨by simpa using hd, .some hrest, hpower, .inl (by simp)⟩, by simp, by simp, by simp⟩

/-- The text of a numeral that is not a zero with a power of ten has the form of a number in
JSON. -/
theorem standard_text {n : Numeral} (hn : n.coefficient ≠ 0 ∨ n = ⟨0, 0⟩) :
    ∃ p : Parts, n.text = p.text ∧ p.Standard ∧ p.IsReal := by
  rcases hn with hn | rfl
  · have hne := decimalDigits_ne_nil n.coefficient
    have hall := allDigits_decimalDigits n.coefficient
    unfold text
    simp only
    split_ifs
    · exact standard_positional hne hall (head_decimalDigits hn) _
    · exact standard_scientific hne hall _
  · refine ⟨⟨['0'], ['.', '0'], []⟩, by decide, ?_, by simp [Parts.IsReal]⟩
    exact standard_point (by decide) (allDigits_zeros 1) (by decide) (allDigits_zeros 1) (by decide)

/-- The shortest numeral of a double has a coefficient other than zero, or is zero. -/
theorem coefficient_shortest (r : ℕ) : (shortest r).coefficient ≠ 0 ∨ shortest r = ⟨0, 0⟩ := by
  by_cases hr : r = 0
  · exact .inr (by rw [hr]; rfl)
  · refine .inl fun h => hr ?_
    rw [← rank_shortest r, rank, if_pos h]

/-- A text has the parts of one written numeral only. -/
theorem Parts.Proper.text_injective {p q : Parts} (hp : p.Proper) (hq : q.Proper)
    (h : p.text = q.text) : p = q := by
  have hsplit := hp.split_text_append (stops_nil _)
  rw [h, hq.split_text_append (stops_nil _)] at hsplit
  cases hsplit
  rfl

end Numeral

/-- The text of a double is a minus sign if it has one, and a written numeral of its rank in the
form of JSON. -/
theorem Finite.exists_standard_text (x : Finite) :
    ∃ p : Parts, x.text.toList = signed x.negative p.text ∧ p.Standard ∧ p.IsReal ∧
      p.value.rank = x.rank := by
  obtain ⟨p, htext, hp, hreal⟩ := standard_text (coefficient_shortest x.rank)
  obtain ⟨q, htext', hq, hvalue⟩ := exists_parts_text (shortest x.rank)
  obtain rfl := hp.proper.text_injective hq (htext.symm.trans htext')
  exact ⟨p, by rw [text, String.toList_ofList, htext], hp, hreal,
    hvalue.rank.trans (rank_shortest _)⟩

namespace Json

/-! ## Tokens of numbers -/

/-- The parts of a number in the form of JSON are found again if the text after it does not continue
it. -/
theorem numberParts_text_append {p : Parts} (hp : p.Standard) {rest : List Char}
    (hrest : Stops continues rest) : numberParts? (p.text ++ rest) = some p := by
  have hsplit := hp.proper.split_text_append hrest
  obtain ⟨whole, point, power⟩ := p
  obtain ⟨⟨hwhole, hpoint, hpower, -⟩, hne, hzero, hdigits⟩ := hp
  simp only [Parts.text, List.append_assoc] at hwhole hpoint hpower hne hzero hdigits hsplit ⊢
  -- The digits up to the point are the whole part, as they are when a numeral is split off.
  have htake : (whole ++ (point ++ (power ++ rest))).takeWhile isDigit = whole := by
    simp only [split] at hsplit
    split_ifs at hsplit
    exact congrArg Parts.whole (congrArg Prod.fst (Option.some.inj hsplit))
  have hpointed : splitFraction (point ++ (power ++ rest)) = (point, power ++ rest) := by
    rw [splitFraction, splitPoint_append hpoint (stops_power_append hpower hrest)]
    cases hpoint with
    | none => rfl
    | @some ds hds =>
      have hne : ds ≠ [] := by
        rintro rfl
        exact hdigits rfl
      exact if_neg hne
  obtain ⟨d, ds, rfl⟩ := List.exists_cons_of_ne_nil hne
  have hfront : (if d = '0' then ['0'] else d :: ds) = d :: ds := by
    split_ifs with hd
    · exact (hzero (by rw [hd]; rfl)).symm
    · rfl
  unfold numberParts?
  simp only [htake, hfront, List.drop_left, hpointed, splitPower_append hpower hrest]

/-- A minus sign and a digit, or a digit alone, start a number. -/
theorem lexeme_digit {d : Char} (hd : isDigit d = true) (negative : Bool) (cs : List Char) :
    lexeme? (Finite.signed negative (d :: cs)) =
      (numberParts? (d :: cs)).map fun p =>
        (numberToken negative p, (Finite.signed negative p.text).length) := by
  have hmem := mem_of_isDigit hd
  simp only [List.mem_cons, List.not_mem_nil, or_false] at hmem
  cases negative <;> rcases hmem with rfl | rfl | rfl | rfl | rfl | rfl | rfl | rfl | rfl | rfl <;>
    rfl

/-- A sign stands before a text and what follows it. -/
theorem signed_append (negative : Bool) (cs ds : List Char) :
    Finite.signed negative cs ++ ds = Finite.signed negative (cs ++ ds) := by
  cases negative <;> rfl

/-- A sign and a number in the form of JSON are one token. -/
theorem lexeme_signed {p : Parts} (hp : p.Standard) (negative : Bool) {rest : List Char}
    (hrest : Stops continues rest) :
    lexeme? (Finite.signed negative p.text ++ rest) =
      some (numberToken negative p, (Finite.signed negative p.text).length) := by
  have hparts := numberParts_text_append hp hrest
  obtain ⟨d, ds, hwhole⟩ := List.exists_cons_of_ne_nil hp.whole
  have hd : isDigit d = true := hp.proper.whole d (by rw [hwhole]; exact List.mem_cons_self)
  have htext : p.text ++ rest = d :: (ds ++ (p.point ++ (p.power ++ rest))) := by
    simp [Parts.text, hwhole]
  rw [signed_append, htext, lexeme_digit hd negative, ← htext, hparts]
  rfl

/-! ## Integers -/

/-- The parts of an integer. -/
def integerParts (i : ℤ) : Parts := ⟨decimalDigits i.natAbs, [], []⟩

/-- An integer is written with its sign and its digits. -/
theorem toList_toString (i : ℤ) :
    (toString i).toList = Finite.signed (i < 0) (integerParts i).text := by
  have htext : (integerParts i).text = decimalDigits i.natAbs := by simp [integerParts, Parts.text]
  rw [htext, Int.toString_eq_repr, Int.repr_eq_if]
  split_ifs with hi
  · have habs : i.toNat = i.natAbs := by omega
    rw [decide_eq_false (Int.not_lt.mpr hi), Nat.toList_repr, habs]
    rfl
  · have habs : (-i).toNat = i.natAbs := by omega
    rw [decide_eq_true (Int.not_le.mp hi), String.toList_append, Nat.toList_repr, habs]
    rfl

/-- An integer has the form of a number in JSON. -/
theorem standard_integerParts (i : ℤ) : (integerParts i).Standard := by
  refine standard_whole (decimalDigits_ne_nil _) (allDigits_decimalDigits _) fun h => ?_
  have hzero : i.natAbs = 0 := by
    by_contra hne
    exact head_decimalDigits hne h
  rw [hzero]
  rfl

/-- The text of an integer that is not long is read as the integer. -/
theorem numberToken_integerParts {i : ℤ} (hi : isLongInteger i = false) :
    numberToken (i < 0) (integerParts i) = .scalar (.int i) := by
  have hlength : (decimalDigits i.natAbs).length ≤ Integer.maxDigits :=
    (length_decimalDigits_le_iff (by decide)).mpr (Nat.not_le.mp (of_decide_eq_false hi))
  have hvalue : (if decide (i < 0) = true then -(i.natAbs : ℤ) else i.natAbs) = i := by
    simp only [decide_eq_true_eq]
    split_ifs <;> omega
  rw [integerParts, numberToken, if_pos ⟨rfl, rfl⟩, if_neg (Nat.not_lt.mpr hlength),
    digitsValue_decimalDigits, hvalue]

/-- An integer that is not too long is one token. -/
theorem lexeme_int {i : ℤ} (hi : isLongInteger i = false) {rest : List Char}
    (hrest : Stops continues rest) :
    lexeme? ((toString i).toList ++ rest) =
      some (.scalar (.int i), (toString i).toList.length) := by
  rw [toList_toString, lexeme_signed (standard_integerParts i) _ hrest, numberToken_integerParts hi]

/-! ## Doubles -/

/-- A finite double is one token. -/
theorem lexeme_double (x : Finite) {rest : List Char} (hrest : Stops continues rest) :
    lexeme? (x.text.toList ++ rest) =
      some (.scalar (.double (.finite x)), x.text.toList.length) := by
  obtain ⟨p, htext, hp, hreal, hrank⟩ := x.exists_standard_text
  have htoken : numberToken x.negative p = .scalar (.double (.finite x)) := by
    rw [numberToken, if_neg hreal, toDouble, hrank, Double.ofRank_of_lt x.rank_lt]
  rw [htext, lexeme_signed hp _ hrest, htoken]

/-! ## Characters that are written -/

/-- Digits are printable. -/
theorem isShown_of_isDigit {c : Char} (h : isDigit c = true) : IsShown c := by
  exact isShown_of_all (by decide) c (mem_of_isDigit h)

/-- The text of a numeral is printable. -/
theorem isShown_parts {p : Parts} (hp : p.Proper) : ∀ c ∈ p.text, IsShown c :=
  hp.forall_mem_text (fun _ => isShown_of_isDigit) (isShown_of_all (by decide))

/-- The text of a numeral with a sign is printable. -/
theorem isShown_signed {p : Parts} (hp : p.Proper) (negative : Bool) :
    ∀ c ∈ Finite.signed negative p.text, IsShown c := by
  cases negative with
  | false => exact isShown_parts hp
  | true => exact List.forall_mem_cons.mpr ⟨by decide, isShown_parts hp⟩

end Json

end PayrollFormula
