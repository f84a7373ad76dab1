import Mathlib.Data.List.Infix
import PayrollFormula.Formula.Parse
import PayrollFormula.Proofs.Formula.Scanning
import PayrollFormula.Proofs.Formula.Viable

/-!
# Matching parentheses

The parentheses of a text match if none is closed before it is opened and all that are opened are
closed, which is what the count of open ones finds out (`balanced_iff`). No token but the
parentheses themselves has parentheses in it (`Cut.filter_isParen`), and those of a phrase match, so
the parentheses of a text whose tokens are a sentence do (`Matched.of_sentence`).
-/

set_option autoImplicit false

namespace PayrollFormula

namespace Formula

/-- Whether the parentheses of a text match: nowhere are more of them closed than were opened
before, and at the end as many. -/
structure Matched (cs : List Char) : Prop where
  closed_le_opened : ∀ before, before <+: cs → before.count ')' ≤ before.count '('
  closed_eq_opened : cs.count ')' = cs.count '('

/-- What holds of all beginnings of a text holds of the empty one and of those with its first
character. -/
theorem forall_prefix_cons {P : List Char → Prop} {c : Char} {cs : List Char} :
    (∀ before, before <+: c :: cs → P before) ↔ P [] ∧ ∀ before, before <+: cs → P (c :: before) := by
  constructor
  · intro h
    exact ⟨h [] List.nil_prefix, fun before hbefore =>
      h _ (List.cons_prefix_cons.mpr ⟨rfl, hbefore⟩)⟩
  · rintro ⟨hnil, hcons⟩ before hbefore
    obtain rfl | ⟨rest, rfl, hrest⟩ := List.prefix_cons_iff.mp hbefore
    · exact hnil
    · exact hcons rest hrest

/-- A character that is no parenthesis does not count. -/
theorem balancedFrom_cons_of_ne {c : Char} (hopen : c ≠ '(') (hclose : c ≠ ')') (opened : ℕ)
    (cs : List Char) : balancedFrom opened (c :: cs) = balancedFrom opened cs := by
  rw [balancedFrom]
  · exact hopen
  · exact hclose

/-- The count of open parentheses, started with those that are open before a text, ends well exactly
if the text never closes more than these and those that it opened, and closes all of them. -/
theorem balancedFrom_iff (opened : ℕ) (cs : List Char) :
    balancedFrom opened cs = true ↔
      (∀ before, before <+: cs → before.count ')' ≤ opened + before.count '(') ∧
        cs.count ')' = opened + cs.count '(' := by
  induction cs generalizing opened with
  | nil => simp [balancedFrom, eq_comm]
  | cons c cs ih =>
    rw [forall_prefix_cons]
    by_cases hopen : c = '('
    · subst hopen
      simp only [balancedFrom, ih, List.count_cons, List.count_nil]
      simp [Nat.add_assoc, Nat.add_comm 1]
    · by_cases hclose : c = ')'
      · subst hclose
        cases opened with
        | zero =>
          simp only [balancedFrom, Bool.false_eq_true, false_iff]
          rintro ⟨⟨-, h⟩, -⟩
          simpa using h [] List.nil_prefix
        | succ opened =>
          simp only [balancedFrom, ih, List.count_cons, List.count_nil]
          simp [Nat.add_right_comm]
      · rw [balancedFrom_cons_of_ne hopen hclose, ih]
        simp [hopen, hclose]

/-- The count of a text says whether its parentheses match. -/
theorem balanced_iff {cs : List Char} : balanced cs = true ↔ Matched cs := by
  rw [balanced, balancedFrom_iff]
  simp only [Nat.zero_add]
  exact ⟨fun h => ⟨h.1, h.2⟩, fun h => ⟨h.closed_le_opened, h.closed_eq_opened⟩⟩

/-! ## The parentheses of a text and of its tokens -/

/-- Whether a character is a parenthesis. -/
def isParen (c : Char) : Bool := c = '(' || c = ')'

/-- Only the parentheses count. -/
theorem balancedFrom_filter (opened : ℕ) (cs : List Char) :
    balancedFrom opened (cs.filter isParen) = balancedFrom opened cs := by
  induction cs generalizing opened with
  | nil => rfl
  | cons c cs ih =>
    by_cases hopen : c = '('
    · subst hopen
      exact ih (opened + 1)
    · by_cases hclose : c = ')'
      · subst hclose
        cases opened with
        | zero => rfl
        | succ opened => exact ih opened
      · rw [balancedFrom_cons_of_ne hopen hclose, List.filter_cons_of_neg (by simp [isParen, *]), ih]

end Formula

open Formula Grammar

/-- The parentheses in a token of a kind. -/
def TokenKind.parens : TokenKind → List Char
  | .leftParen => ['(']
  | .rightParen => [')']
  | _ => []

/-- No word is a parenthesis. -/
theorem parens_wordKind (word rest : List Char) : (wordKind word rest).parens = [] := by
  unfold wordKind
  split_ifs <;> rfl

/-- The parentheses in a symbol are those of its kind. -/
theorem filter_isParen_symbol {k : TokenKind} {chars rest : List Char}
    (h : symbol? (chars ++ rest) = some (k, chars.length)) : chars.filter isParen = k.parens := by
  obtain ⟨hpos, hle, -⟩ := symbol?_cases h
  match chars, h with
  | [], _ => simp at hpos
  | [c], h | [c, d], h =>
    unfold symbol? at h
    split at h <;> cases h <;> rename_i heq <;> cases heq <;> rfl
  | _ :: _ :: _ :: _, _ => simp at hle

/-- A lexeme has no parentheses in it but is one. -/
theorem IsLexeme.filter_isParen {k : TokenKind} {chars rest : List Char}
    (h : IsLexeme k chars rest) : chars.filter isParen = k.parens := by
  cases h with
  | word hname =>
    rw [parens_wordKind, List.filter_eq_nil_iff]
    intro c hc hparen
    have hnameChar := isNameChar_of_mem hname hc
    simp only [isParen, Bool.or_eq_true, decide_eq_true_eq] at hparen
    rcases hparen with rfl | rfl <;> exact absurd hnameChar (by decide)
  | number hp =>
    refine List.filter_eq_nil_iff.mpr (hp.forall_mem_text ?_ (by simp [isParen]))
    intro c hc hparen
    simp only [isParen, Bool.or_eq_true, decide_eq_true_eq] at hparen
    rcases hparen with rfl | rfl <;> exact absurd hc (by decide)
  | symbol hsymbol => exact filter_isParen_symbol hsymbol

/-- The parentheses of tokens of the given kinds. -/
def parensOf (ks : List TokenKind) : List Char := ks.flatMap TokenKind.parens

/-- The parentheses of a text are those of its tokens. -/
theorem Cut.filter_isParen {start : ℕ} {cs : List Char} {ts : List Token} (h : Cut start cs ts) :
    cs.filter isParen = parensOf (ts.map Token.kind) := by
  induction h with
  | nil => rfl
  | space hspace _ ih =>
    rw [List.filter_cons_of_neg, ih]
    simp only [isSpace, Bool.or_eq_true, decide_eq_true_eq] at hspace
    rcases hspace with (((rfl | rfl) | rfl) | rfl) | rfl <;> decide
  | lexeme k chars hlex _ ih =>
    rw [List.filter_append, (isLexeme_of_lexeme? hlex).filter_isParen, ih]
    rfl

/-! ## The parentheses of a phrase -/

/-- Whether the parentheses of a text match whatever comes before and after it. -/
def Nested (cs : List Char) : Prop :=
  ∀ (opened : ℕ) (rest : List Char), balancedFrom opened (cs ++ rest) = balancedFrom opened rest

/-- The parentheses of the empty text match. -/
theorem nested_nil : Nested [] := fun _ _ => rfl

/-- Nested parentheses side by side are nested. -/
theorem Nested.append {cs ds : List Char} (hc : Nested cs) (hd : Nested ds) :
    Nested (cs ++ ds) := by
  intro opened rest
  rw [List.append_assoc, hc, hd]

/-- Nested parentheses within a pair are nested. -/
theorem Nested.enclosed {cs : List Char} (h : Nested cs) : Nested ('(' :: (cs ++ [')'])) := by
  intro opened rest
  rw [List.cons_append, List.append_assoc, balancedFrom, h]
  rfl

/-- No operator is a parenthesis. -/
theorem Grammar.Joins.parens_eq_nil {c d : Category} {k : TokenKind} {op : BinaryOp}
    (h : Joins c k op d) : k.parens = [] := by
  cases h <;> rfl

/-- Nested phrases with a token between them are nested, unless it is a parenthesis. -/
theorem nested_joined (ts : List Token) {t : Token} (us : List Token) (ht : t.kind.parens = [])
    (hts : Nested (parensOf (ts.map Token.kind))) (hus : Nested (parensOf (us.map Token.kind))) :
    Nested (parensOf ((ts ++ t :: us).map Token.kind)) := by
  simp only [parensOf, List.map_append, List.map_cons, List.flatMap_append, List.flatMap_cons, ht,
    List.nil_append]
  exact hts.append hus

/-- A nested phrase in parentheses is nested. -/
theorem nested_enclosed {l r : Token} (ts : List Token) (hl : l.kind = .leftParen)
    (hts : Nested (parensOf (ts.map Token.kind))) (hr : r.kind = .rightParen) :
    Nested (parensOf ((l :: (ts ++ [r])).map Token.kind)) := by
  simp only [parensOf, List.map_append, List.map_cons, List.map_nil, List.flatMap_append,
    List.flatMap_cons, List.flatMap_nil, hl, hr, TokenKind.parens]
  exact hts.enclosed

/-- The parentheses of a phrase match. -/
theorem Grammar.Derives.nested {c : Category} {ts : List Token} {e : Expr} (h : Derives c ts e) :
    Nested (parensOf (ts.map Token.kind)) := by
  have hkind {t : Token} {k : TokenKind} (ht : t.kind = k) (hk : k.parens = []) :
      t.kind.parens = [] := by
    rw [ht, hk]
  induction h using Derives.rec
    (motive_2 := fun ts _ _ => Nested (parensOf (ts.map Token.kind))) with
  | tighter _ _ ih => exact ih
  | choice _ hq _ hm _ ihc iha ihb =>
    exact nested_joined _ _ (hkind hq rfl) ihc (nested_joined _ _ (hkind hm rfl) iha ihb)
  | binary hj _ _ iha ihb => exact nested_joined _ _ hj.parens_eq_nil iha ihb
  | not ht _ ih | neg ht _ ih => exact nested_joined [] _ (hkind ht rfl) nested_nil ih
  | number ht | named ht => exact nested_joined [] [] (hkind ht rfl) nested_nil nested_nil
  | group hl _ hr ih => exact nested_enclosed _ hl ih hr
  | callNone hf hl hr =>
    exact nested_joined [] _ (hkind hf rfl) nested_nil (nested_enclosed [] hl nested_nil hr)
  | callSome hf hl _ hr ih =>
    exact nested_joined [] _ (hkind hf rfl) nested_nil (nested_enclosed _ hl ih hr)
  | last _ ih => exact ih
  | more _ ht _ iha ih => exact nested_joined _ _ (hkind ht rfl) iha ih

/-- The parentheses of a text match if its tokens are a sentence. -/
theorem Formula.Matched.of_sentence {cs : List Char} {ts : List Token} (h : scan cs = ⟨ts, none⟩)
    (hs : Sentence (ts.map Token.kind)) : Matched cs := by
  obtain ⟨us, e, hk, hus⟩ := hs
  have hnested := hus.nested 0 []
  rw [List.append_nil, hk, ← (scan_eq_iff.mp h).filter_isParen, balancedFrom_filter] at hnested
  exact balanced_iff.mp hnested

end PayrollFormula
