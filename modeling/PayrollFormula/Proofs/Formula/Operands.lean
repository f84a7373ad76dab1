import Mathlib.Data.List.Chain
import PayrollFormula.Proofs.Formula.Canonical

/-!
# Operands among tokens and in texts

In a phrase no two operands stand next to each other (`Derives.separated`). So the text after an
operand never continues a numeral (`Cut.stops_continues`), and any text that is an operand in front
of such a text (`OperandText`) can stand there: a numeral, or the negation of one in parentheses.
-/

set_option autoImplicit false

namespace PayrollFormula

namespace Grammar

/-- Whether a token of a kind is an operand by itself. -/
def isOperand : TokenKind → Bool
  | .number | .name => true
  | _ => false

/-- Whether no two operands stand next to each other among some tokens. -/
def Separated (ts : List Token) : Prop :=
  ts.IsChain fun t u => isOperand t.kind = true → isOperand u.kind = false

section Separated

variable {t : Token} {ts us : List Token}

/-- Tokens are separated if not both of the first two are operands and all but the first are
separated. -/
theorem separated_cons : Separated (t :: ts) ↔
    (∀ u ∈ ts.head?, isOperand t.kind = true → isOperand u.kind = false) ∧ Separated ts :=
  List.isChain_cons

/-- A token that is no operand may stand before any tokens that are separated. -/
theorem separated_cons_of_not (ht : isOperand t.kind = false) :
    Separated (t :: ts) ↔ Separated ts := by
  rw [separated_cons, ht]
  simp

/-- What is no operand keeps the tokens on its two sides apart. -/
theorem separated_append_cons (ht : isOperand t.kind = false) :
    Separated (ts ++ t :: us) ↔ Separated ts ∧ Separated us := by
  rw [Separated, List.isChain_append, ← Separated, ← Separated, separated_cons_of_not ht]
  simp [ht]

end Separated

/-- No operator is an operand. -/
theorem Joins.isOperand_eq_false {c d : Category} {k : TokenKind} {op : BinaryOp}
    (h : Joins c k op d) : isOperand k = false := by
  cases h <;> rfl

/-- No two operands stand next to each other in a phrase. -/
theorem Derives.separated {c : Category} {ts : List Token} {e : Expr} (h : Derives c ts e) :
    Separated ts := by
  have hsingle (t : Token) : Separated [t] := List.isChain_singleton t
  have hkind {t : Token} {k : TokenKind} (ht : t.kind = k) (hk : isOperand k = false) :
      isOperand t.kind = false := by
    rw [ht, hk]
  induction h using Derives.rec (motive_2 := fun ts _ _ => Separated ts) with
  | tighter _ _ ih => exact ih
  | choice _ hq _ hm _ ihc iha ihb =>
    rw [separated_append_cons (hkind hq rfl), separated_append_cons (hkind hm rfl)]
    exact ⟨ihc, iha, ihb⟩
  | binary hj _ _ iha ihb =>
    rw [separated_append_cons hj.isOperand_eq_false]
    exact ⟨iha, ihb⟩
  | not hk _ ih | neg hk _ ih => exact (separated_cons_of_not (hkind hk rfl)).mpr ih
  | number => exact hsingle _
  | named => exact hsingle _
  | group hl _ hr ih =>
    rw [separated_cons_of_not (hkind hl rfl), separated_append_cons (hkind hr rfl)]
    exact ⟨ih, List.isChain_nil⟩
  | callNone _ hl hr =>
    rw [separated_cons, separated_cons_of_not (hkind hl rfl)]
    exact ⟨by simp [hl, isOperand], hsingle _⟩
  | callSome _ hl _ hr ih =>
    rw [separated_cons, separated_cons_of_not (hkind hl rfl), separated_append_cons (hkind hr rfl)]
    exact ⟨by simp [hl, isOperand], ih, List.isChain_nil⟩
  | last _ ih => exact ih
  | more _ hk _ iha ih =>
    rw [separated_append_cons (hkind hk rfl)]
    exact ⟨iha, ih⟩

end Grammar

open Grammar

/-- No keyword continues a numeral. -/
theorem continues_eq_false_of_wordKind {c : Char} {cs rest : List Char}
    (hname : isName (c :: cs) = true) (h : wordKind (c :: cs) rest ≠ .name) :
    Numeral.continues c = false := by
  have hkeyword := isKeyword_of_wordKind h
  have hfirst : lowerLetter c = 'a' ∨ lowerLetter c = 'o' ∨ lowerLetter c = 'n' := by
    simp only [isKeyword, List.map_cons, List.cons.injEq, Bool.or_eq_true, decide_eq_true_eq]
      at hkeyword
    rcases hkeyword with (hword | hword) | hword
    · exact .inl hword.1
    · exact .inr (.inl hword.1)
    · exact .inr (.inr hword.1)
  by_contra hcontinues
  simp only [Numeral.continues, Bool.or_eq_true, decide_eq_true_eq, Bool.not_eq_false]
    at hcontinues
  rcases hcontinues with ((hdigit | rfl) | rfl) | rfl
  · have hstart := (isName_cons.mp hname).1
    rw [isNameStart_eq_false_of_isDigit hdigit] at hstart
    cases hstart
  all_goals exact absurd hfirst (by decide)

/-- A text that is cut into tokens the first of which is no operand does not continue a numeral. -/
theorem Cut.stops_continues {start : ℕ} {cs : List Char} {ts : List Token} (h : Cut start cs ts)
    (hts : ∀ t ∈ ts.head?, isOperand t.kind = false) : Stops Numeral.continues cs := by
  cases h with
  | nil => exact stops_nil _
  | space hspace =>
    rw [stops_cons]
    simp only [isSpace, Bool.or_eq_true, decide_eq_true_eq] at hspace
    rcases hspace with (((rfl | rfl) | rfl) | rfl) | rfl <;> decide
  | @lexeme _ k chars rest ts hlex _ =>
    have hk : isOperand k = false := hts _ rfl
    obtain ⟨c, tail, rfl⟩ := List.exists_cons_of_ne_nil (isLexeme_of_lexeme? hlex).ne_nil
    rw [List.cons_append, stops_cons]
    generalize hchars : c :: tail = chars at hlex
    cases isLexeme_of_lexeme? hlex with
    | word hname =>
      rw [← hchars] at hname hk
      apply continues_eq_false_of_wordKind hname
      intro hkind
      rw [hkind] at hk
      cases hk
    | number => cases hk
    | symbol hsymbol =>
      obtain ⟨-, -, -, -, d, rest', hd, -, hcontinues⟩ := symbol?_cases hsymbol
      rw [← hchars, List.cons_append] at hd
      cases hd
      exact hcontinues

/-- A lexeme stays one in front of another text with the same first character, if the tokens of the
text after it keep operands apart. -/
theorem lexeme?_congr {k : TokenKind} {chars rest rest' : List Char} {start start' : ℕ}
    {ts : List Token} (hlex : lexeme? (chars ++ rest) = some (k, chars)) (hcut : Cut start rest ts)
    (hsep : Separated (⟨k, chars, start'⟩ :: ts)) (hhead : rest'.head? = rest.head?) :
    lexeme? (chars ++ rest') = some (k, chars) := by
  apply ((isLexeme_of_lexeme? hlex).congr hhead).lexeme?_eq
  intro hk c hc
  have hstop : Stops Numeral.continues rest := by
    apply hcut.stops_continues
    intro u hu
    exact (separated_cons.mp hsep).1 u hu (by rw [hk]; rfl)
  exact hstop c (hhead ▸ hc)

/-! ## Texts that are operands -/

/-- Whether a text is an operand with a given tree in front of any text that does not continue a
numeral, and after any symbol. -/
structure OperandText (cs : List Char) (e : Expr) : Prop where
  starts : ∃ c tail, cs = c :: tail ∧ c ≠ '='
  cut : ∀ (start : ℕ) (rest : List Char) (us : List Token), Stops Numeral.continues rest →
    Cut (start + cs.length) rest us → ∃ ts, Cut start (cs ++ rest) (ts ++ us) ∧ Derives .atom ts e

/-- A numeral is the text of its value as an operand. -/
theorem operandText_number {p : Numeral.Parts} (hp : p.Proper) {x : Finite}
    (hrank : p.value.rank = x.rank) : OperandText p.text (.literal x.abs) where
  starts := by
    obtain ⟨c, cs, htext, hc⟩ := hp.exists_cons
    refine ⟨c, cs, htext, ?_⟩
    rintro rfl
    revert hc
    decide
  cut := by
    intro start rest us hrest hcut
    exact ⟨[⟨.number, p.text, start⟩], .lexeme _ _ (lexeme?_number hp hrest) hcut,
      .number rfl (number?_of_rank hp hrank start)⟩

/-- The negation of a written numeral is an operand if it is put in parentheses. -/
theorem operandText_neg {p : Numeral.Parts} (hp : p.Proper) {x : Finite}
    (hrank : p.value.rank = x.rank) :
    OperandText ('(' :: '-' :: (p.text ++ [')'])) (.unary .neg (.literal x.abs)) where
  starts := ⟨_, _, rfl, by decide⟩
  cut := by
    intro start rest us _ hcut
    have hend : Cut (start + 2 + p.text.length + 1) rest us := by
      have hlength : ('(' :: '-' :: (p.text ++ [')'])).length = 2 + p.text.length + 1 := by
        simp
        omega
      rwa [hlength, ← Nat.add_assoc, ← Nat.add_assoc] at hcut
    obtain ⟨ts, hts, hnumber⟩ := (operandText_number hp hrank).cut (start + 2) (')' :: rest) _
      (by simp; decide) hend.close
    have hopen : Cut start (['('] ++ (['-'] ++ (p.text ++ ')' :: rest))) _ :=
      .lexeme .leftParen ['('] rfl (.lexeme .minus ['-'] rfl hts)
    refine ⟨⟨.leftParen, ['('], start⟩ :: (⟨.minus, ['-'], start + 1⟩ :: ts ++
      [⟨.rightParen, [')'], start + 2 + p.text.length⟩]), by simpa using hopen, ?_⟩
    have hneg : Derives .unary (⟨.minus, ['-'], start + 1⟩ :: ts) (.unary .neg (.literal x.abs)) :=
      .neg rfl (hnumber.loosen (by decide))
    exact .group rfl (hneg.loosen (by decide)) rfl

end PayrollFormula
