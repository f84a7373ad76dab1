import PayrollFormula.Proofs.Formula.Patterns
import PayrollFormula.Proofs.Formula.Rereading
import PayrollFormula.Proofs.Number.Whole

/-!
# Number texts are read back

Whichever form it takes, the text of a number inside a formula is a numeral behind a minus sign that
only a number below zero has. The numeral is one token with the magnitude of the number, and the
whole text is read as the number itself, as people type it (`Finite.formulaText_reads_back`). So no
two numbers have one text, apart from the two zeros, whose sign is not written.
-/

set_option autoImplicit false

namespace PayrollFormula

/-! ## Numerals as people type them -/

namespace Double

/-- A text without underscores has none to drop. -/
theorem dropUnderscores?_eq_self {cs : List Char} (h : '_' ∉ cs) {before : Option Char}
    (hbefore : before ≠ some '_') : dropUnderscores? before cs = some cs := by
  induction cs generalizing before with
  | nil => rw [dropUnderscores?, if_neg hbefore]
  | cons c cs ih =>
    rw [List.mem_cons, not_or] at h
    obtain ⟨hc, hcs⟩ := h
    have hrest : dropUnderscores? (some c) cs = some cs := ih hcs (by simpa using Ne.symm hc)
    simp [dropUnderscores?, Ne.symm hc, hbefore, hrest]

/-- A digit of ASCII stands for itself. -/
theorem plainDigit_of_isDigit {c : Char} (h : isDigit c = true) : plainDigit c = c := by
  simpa using eq_true_of_isDigit (p := fun d => plainDigit d = d) (by decide) h

/-- The digits of other scripts lie beyond ASCII, so every other character of it stays. -/
theorem plainDigit_of_ascii {c : Char} (hascii : c.toNat < 128) (h : isDigit c = false) :
    plainDigit c = c := by
  have hzeros : digitZeros.all (fun z => z = 48 || 128 ≤ z) = true := by rfl
  have hoff : c.toNat < 48 ∨ 58 ≤ c.toNat := by
    simp only [isDigit, Char.le_def, UInt32.le_iff_toNat_le, Bool.and_eq_false_iff,
      decide_eq_false_iff_not, Nat.not_le] at h
    exact h
  have hnone : digitOf? c = none := by
    rw [digitOf?, Option.map_eq_none_iff, List.find?_eq_none]
    intro z hz
    have hplace := List.all_eq_true.mp hzeros z hz
    simp only [Bool.or_eq_true, Bool.and_eq_true, decide_eq_true_eq] at hplace ⊢
    omega
  rw [plainDigit, hnone]

end Double

namespace Numeral

variable {p : Parts}

/-- A written numeral with a sign is read as its value with that sign. -/
theorem Parts.Proper.readPlain?_signed (hp : p.Proper) (negative : Bool) :
    Double.readPlain? (Finite.signed negative p.text) = some (p.value.toDouble negative) := by
  simp [Double.readPlain?, hp.takeSign_signed, hp.isWord_eq_false, hp.read_text]

/-- When a written numeral with a sign is read, no character of it is changed or dropped before. -/
theorem Parts.Proper.forall_mem_signed (hp : p.Proper) (negative : Bool) :
    ∀ c ∈ Finite.signed negative p.text, Double.plainDigit c = c ∧ c ≠ '_' := by
  have hdigit (c : Char) (hc : isDigit c = true) : Double.plainDigit c = c ∧ c ≠ '_' := by
    refine ⟨Double.plainDigit_of_isDigit hc, ?_⟩
    rintro rfl
    cases hc
  have hmark : ∀ c ∈ ['.', 'e', 'E', '+', '-'], Double.plainDigit c = c ∧ c ≠ '_' := by
    have hplace : ∀ c ∈ ['.', 'e', 'E', '+', '-'],
        c.toNat < 128 ∧ isDigit c = false ∧ c ≠ '_' := by simp [isDigit]
    intro c hc
    obtain ⟨hascii, hother, hne⟩ := hplace c hc
    exact ⟨Double.plainDigit_of_ascii hascii hother, hne⟩
  have htext := hp.forall_mem_text hdigit hmark
  cases negative with
  | false => exact htext
  | true => exact List.forall_mem_cons.mpr ⟨hmark '-' (by simp), htext⟩

/-- What is typed as a written numeral with a sign is read as that. -/
theorem Parts.Proper.read?_signed (hp : p.Proper) (negative : Bool) :
    Double.read? (String.ofList (Finite.signed negative p.text)) =
      some (p.value.toDouble negative) := by
  have hkept := hp.forall_mem_signed negative
  have hplain : (Finite.signed negative p.text).map Double.plainDigit =
      Finite.signed negative p.text := by
    rw [List.map_congr_left fun c hc => (hkept c hc).1, List.map_id']
  have hunderscore : '_' ∉ Finite.signed negative p.text := fun h => (hkept '_' h).2 rfl
  rw [Double.read?, String.toList_ofList, hp.strip_signed, hplain,
    Double.dropUnderscores?_eq_self hunderscore (by simp), Option.bind_some,
    hp.readPlain?_signed]

end Numeral

/-- A written numeral is cut into one token. -/
theorem Formula.tokens_numeral {p : Numeral.Parts} (hp : p.Proper) :
    tokens p.text = .ok [⟨.number, p.text, 0⟩] := by
  have hlexeme := lexeme?_number hp (stops_nil Numeral.continues)
  have hcut : Cut 0 (p.text ++ []) [⟨.number, p.text, 0⟩] :=
    .lexeme .number p.text hlexeme (.nil _)
  rw [List.append_nil] at hcut
  have hstrip : strip p.text = p.text := hp.strip_signed false
  obtain ⟨c, cs, htext, -⟩ := hp.exists_cons
  refine tokens_eq_ok_iff.mpr ⟨?_, scan_eq_iff.mpr hcut⟩
  rw [hstrip, htext]
  exact List.cons_ne_nil c cs

namespace Finite

/-- The same number, but zero without a sign. -/
def unsignedZero (x : Finite) : Finite := if x.rank = 0 then .zero else x

/-- Zero without a sign is the same number. -/
theorem ticks_unsignedZero (x : Finite) : x.unsignedZero.ticks = x.ticks := by
  unfold unsignedZero
  split_ifs with h
  · rw [eq_zeroOf h, ticks_zeroOf]
    exact ticks_zeroOf false
  · rfl

/-- A number has a sign but for zero if it is below zero. -/
theorem ofRank_ticks_neg (x : Finite) :
    Double.ofRank (x.ticks < 0) x.rank = .finite x.unsignedZero := by
  rw [Double.ofRank, dif_pos x.rank_lt]
  congr 1
  unfold unsignedZero
  split_ifs with h
  · simp [ticks_neg_iff, h, zero]
  · simp [ticks_neg_iff, h]

/-- Doubles with the same value have the same magnitude. -/
theorem abs_eq_of_ticks_eq {x y : Finite} (h : x.ticks = y.ticks) : x.abs = y.abs := by
  have hmagnitude : x.magnitude = y.magnitude := by
    rw [← natAbs_ticks, ← natAbs_ticks, h]
  have hrank : x.rank = y.rank := Rank.ticks_strictMono.injective hmagnitude
  simp [abs, hrank]

/-- A number has one text, whatever the sign of zero is. -/
theorem formulaText_eq_of_ticks_eq {x y : Finite} (h : x.ticks = y.ticks) :
    x.formulaText = y.formulaText := by
  apply String.toList_inj.mp
  rw [toList_formulaText, toList_formulaText y, h, abs_eq_of_ticks_eq h]

/-- The text of a double in a formula is read as the double, but for the sign of zero. -/
theorem read?_formulaText (x : Finite) :
    Double.read? x.formulaText = some (.finite x.unsignedZero) := by
  obtain ⟨p, htext, hp, hrank⟩ := x.exists_parts_formulaText
  have hread := hp.read?_signed (x.ticks < 0)
  rw [← htext, String.ofList_toList, Numeral.toDouble, hrank, ofRank_ticks_neg] at hread
  exact hread

/-- The text of a finite double inside a formula is a minus sign, if the number is below zero, and a
text that the pattern of numbers matches, which is scanned as one token and stands for the
magnitude. The whole text is read back as the double, a negative zero as zero. So the texts of two
doubles are the same exactly if the doubles are equal as numbers. -/
theorem formulaText_reads_back :
    (∀ x : Finite, ∃ numeral, x.formulaText.toList = signed (x.ticks < 0) numeral ∧
      (∀ rest, Token.Matches .number numeral rest) ∧
      Formula.tokens numeral = .ok [⟨.number, numeral, 0⟩] ∧
      (∀ start, Token.number? ⟨.number, numeral, start⟩ = some x.abs) ∧
      Double.read? x.formulaText = some (.finite (if x.rank = 0 then .zero else x))) ∧
      ∀ x y : Finite, x.formulaText = y.formulaText ↔ x.ticks = y.ticks := by
  constructor
  · intro x
    obtain ⟨p, htext, hp, hrank⟩ := x.exists_parts_formulaText
    exact ⟨p.text, htext, fun rest => .number rest hp, Formula.tokens_numeral hp,
      number?_of_rank hp hrank, x.read?_formulaText⟩
  · intro x y
    refine ⟨fun h => ?_, formulaText_eq_of_ticks_eq⟩
    have hread : some (Double.finite x.unsignedZero) = some (.finite y.unsignedZero) := by
      rw [← read?_formulaText, h, read?_formulaText]
    rw [← ticks_unsignedZero, Double.finite.inj (Option.some.inj hread), ticks_unsignedZero]

end Finite

end PayrollFormula
