import PayrollFormula.Proofs.Formula.Parentheses
import PayrollFormula.Proofs.Formula.Respelling

/-!
# The canonical text has as few parentheses as any

Spelling tokens in the canonical way changes nothing about parentheses, and the canonical text is
made of the tokens of any text with the same tree. So none of its parentheses can be spared
(`parse_text_fewest_parentheses`).
-/

set_option autoImplicit false

namespace PayrollFormula

open Formula Grammar

/-! ## Parentheses of respelled tokens -/

/-- A token in canonical spelling has the parentheses of its kind. -/
theorem IsLexeme.filter_isParen_spelling {t : Token} {rest : List Char}
    (h : IsLexeme t.kind t.chars rest) : t.spelling.filter isParen = t.kind.parens := by
  obtain ⟨k, chars, start⟩ := t
  cases k with
  | number =>
    obtain ⟨p, htext, hp, -⟩ := (Token.number ⟨.number, chars, start⟩).exists_parts_formulaText
    have hlexeme : IsLexeme .number p.text [] := .number hp
    have hdigits : p.text.filter isParen = [] := hlexeme.filter_isParen
    have hspelling : Token.spelling ⟨.number, chars, start⟩ = Finite.signed _ p.text := htext
    rw [hspelling]
    unfold Finite.signed
    split_ifs
    · exact hdigits
    · exact hdigits
  | name => exact h.filter_isParen
  | _ => rfl

/-- Tokens in canonical spelling have the parentheses of the text that they are cut from. -/
theorem Cut.filter_isParen_spellings {start : ℕ} {cs : List Char} {ts : List Token}
    (h : Cut start cs ts) : (ts.flatMap Token.spelling).filter isParen = cs.filter isParen := by
  rw [h.filter_isParen]
  induction h with
  | nil => rfl
  | space _ _ ih => exact ih
  | lexeme k chars hlex _ ih =>
    rw [List.flatMap_cons, List.filter_append, ih,
      (isLexeme_of_lexeme? hlex).filter_isParen_spelling]
    rfl

set_option maxRecDepth 2000 in
/-- Only an opening parenthesis is one in upper case. -/
theorem upperLetter_eq_paren_iff {c : Char} : upperLetter c = '(' ↔ c = '(' := by
  by_cases hc : c.toNat < 128
  · exact forall_ascii (P := fun c => upperLetter c = '(' ↔ c = '(') (by decide) hc
  · have hsame : upperLetter c = c := by
      apply if_neg
      rintro ⟨-, hz⟩
      have hle : c.toNat ≤ 'z'.toNat := hz
      exact hc (Nat.lt_of_le_of_lt hle (by decide))
    rw [hsame]

/-- Upper case leaves parentheses alone. -/
theorem count_map_upperLetter (cs : List Char) :
    (cs.map upperLetter).count '(' = cs.count '(' := by
  rw [List.count_eq_countP, List.count_eq_countP, List.countP_map]
  apply List.countP_congr
  intro c _
  simp [upperLetter_eq_paren_iff]

namespace Formula

/-- No text that is read as a formula has fewer opening parentheses than the canonical text of the
formula. -/
theorem parse_text_fewest_parentheses {limits : Limits} {text : String} {e : Expr}
    (h : parse limits text = .ok e) : e.text.toList.count '(' ≤ text.toList.count '(' := by
  obtain ⟨ts, hcut, -, hmade⟩ := exists_madeOf h
  calc e.text.toList.count '(' = (e.text.toList.map upperLetter).count '(' :=
        (count_map_upperLetter _).symm
    _ ≤ (respelled ts).count '(' := hmade.count_le _
    _ = (ts.flatMap Token.spelling).count '(' := count_map_upperLetter _
    _ = ((ts.flatMap Token.spelling).filter isParen).count '(' := (List.count_filter rfl).symm
    _ = (text.toList.filter isParen).count '(' := by rw [hcut.filter_isParen_spellings]
    _ = text.toList.count '(' := List.count_filter rfl

/-- Of two pairs of parentheses the one that the product needs is written, and no text of the
product has less. -/
theorem parse_text_product_of_sum :
    parse .standard "(a + (b)) * c" =
        .ok (.binary .mul (.binary .add (.variable "a") (.variable "b")) (.variable "c")) ∧
      (Expr.binary .mul (.binary .add (.variable "a") (.variable "b")) (.variable "c")).text.toList.count
        '(' ≤ "(a + (b)) * c".toList.count '(' := by
  have hparse : parse .standard "(a + (b)) * c" =
      .ok (.binary .mul (.binary .add (.variable "a") (.variable "b")) (.variable "c")) := by
    rw [parse_eq_ok_iff_tree, Expr.depth_eq_height]
    exact ⟨by decide, by decide, by rfl, by decide⟩
  exact ⟨hparse, parse_text_fewest_parentheses hparse⟩

end Formula

end PayrollFormula
