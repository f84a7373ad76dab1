import PayrollFormula.Proofs.Formula.RoundTrip

/-!
# The canonical text as a respelling

The canonical text of a formula is made of the tokens of any text that has its tree: every token is
spelled in the canonical way, with its blanks, and some pairs of parentheses are left out. Letter
case apart, the canonical text is therefore a sublist of the respelled tokens
(`Derives.madeOf`), which bounds whatever is counted in it.
-/

set_option autoImplicit false

namespace PayrollFormula

/-- How a token is spelled in a canonical text, with the blanks around it. -/
def Token.spelling (t : Token) : List Char :=
  match Parsing.binaryOp? t.kind with
  | some op => ' ' :: op.symbol.toList ++ [' ']
  | none =>
    match t.kind with
    | .number => t.number.formulaText.toList
    | .name => t.chars
    | .not => Expr.unaryMark .not
    | .question => [' ', '?', ' ']
    | .colon => [' ', ':', ' ']
    | .comma => [',', ' ']
    | .leftParen => ['(']
    | .rightParen => [')']
    | _ => []

/-- Some tokens in canonical spelling, one after the other and in upper case. -/
def respelled (ts : List Token) : List Char := (ts.flatMap Token.spelling).map upperLetter

/-- Without tokens there is nothing to respell. -/
@[simp] theorem respelled_nil : respelled [] = [] := rfl

/-- The first token is respelled before the others. -/
@[simp] theorem respelled_cons (t : Token) (ts : List Token) :
    respelled (t :: ts) = t.spelling.map upperLetter ++ respelled ts := by
  simp [respelled]

/-- Tokens one after another are respelled one after another. -/
@[simp] theorem respelled_append (ts us : List Token) :
    respelled (ts ++ us) = respelled ts ++ respelled us := by
  simp [respelled]

namespace Expr

/-! ## Texts in parentheses -/

/-- No parentheses are put around what binds tightly enough. -/
theorem guarded_of_le {demanded level : ℕ} (h : demanded ≤ level) (cs : List Char) :
    guarded demanded level cs = cs :=
  if_neg (not_lt.mpr h)

/-- Where less is demanded, there are no more parentheses. -/
theorem guarded_sublist_guarded {demanded demanded' : ℕ} (h : demanded ≤ demanded') (level : ℕ)
    (cs : List Char) : (guarded demanded level cs).Sublist (guarded demanded' level cs) := by
  unfold guarded
  split_ifs with hlow hhigh hhigh
  · exact List.Sublist.refl _
  · omega
  · exact (List.sublist_append_left cs [')']).cons '('
  · exact List.Sublist.refl _

/-- Parentheses around a text are at most one pair. -/
theorem guarded_sublist (demanded level : ℕ) (cs : List Char) :
    (guarded demanded level cs).Sublist ('(' :: (cs ++ [')'])) := by
  unfold guarded
  split_ifs
  · exact List.Sublist.refl _
  · exact (List.sublist_append_left cs [')']).cons '('

end Expr

namespace Grammar

open PayrollFormula.Expr

/-- Whether a canonical text is made of some tokens: in upper case it is a sublist of the respelled
tokens. -/
def MadeOf (cs : List Char) (ts : List Token) : Prop := (cs.map upperLetter).Sublist (respelled ts)

/-- An empty text is made of no tokens. -/
theorem madeOf_nil : MadeOf [] [] := List.Sublist.refl _

/-- Texts one after another are made of their tokens one after another. -/
theorem MadeOf.append {cs ds : List Char} {ts us : List Token} (hc : MadeOf cs ts)
    (hd : MadeOf ds us) : MadeOf (cs ++ ds) (ts ++ us) := by
  unfold MadeOf
  rw [List.map_append, respelled_append]
  exact List.Sublist.append hc hd

/-- A part of a text is made of the same tokens. -/
theorem MadeOf.of_sublist {cs ds : List Char} {ts : List Token} (h : MadeOf ds ts)
    (hcs : cs.Sublist ds) : MadeOf cs ts :=
  (hcs.map upperLetter).trans h

/-- A token is spelled in one way for its kind, unless it is a number or a name. -/
theorem madeOf_token {t : Token} {k : TokenKind} {cs : List Char} (ht : t.kind = k)
    (hcs : cs.Sublist (Token.spelling ⟨k, t.chars, t.start⟩)) : MadeOf cs [t] := by
  subst ht
  unfold MadeOf
  rw [respelled_cons, respelled_nil, List.append_nil]
  exact hcs.map upperLetter

/-- An operator between blanks is made of its token. -/
theorem madeOf_operator {c d : Category} {op : BinaryOp} {t : Token} (h : Joins c t.kind op d) :
    MadeOf (' ' :: op.symbol.toList ++ [' ']) [t] := by
  apply madeOf_token rfl
  unfold Token.spelling
  simp only [h.binaryOp?]
  exact List.Sublist.refl _

/-- A number that is read from a token has the text that the token is spelled with. -/
theorem madeOf_number {t : Token} {x : Finite} (ht : t.kind = .number) (hx : t.number? = some x) :
    MadeOf (literal x).chars [t] := by
  have hnumber : t.number = x := by
    rw [Token.number, hx, Option.getD_some]
  apply madeOf_token ht
  rw [chars, ← hnumber]
  exact List.Sublist.refl _

/-- The name of a function in upper case is made of the token that names it. -/
theorem madeOf_upperCase {t : Token} (ht : t.kind = .name) (hname : IsIdentifier t.chars) :
    MadeOf (upperCase t.text).toList [t] := by
  have hchars : t.text.toList = t.chars := String.toList_ofList
  have hupper : (upperCase t.text).toList = t.chars.map upperLetter := by
    rw [toList_upperCase (hchars ▸ hname.1), hchars]
  have hspelled : MadeOf t.chars [t] := madeOf_token ht (List.Sublist.refl _)
  unfold MadeOf at hspelled ⊢
  rwa [hupper, (isName_map_upperLetter hname.1).2.2]

/-- What stands between parentheses is made of the tokens between them. -/
theorem MadeOf.enclosed {cs : List Char} {l r : Token} {ts : List Token} (h : MadeOf cs ts)
    (hl : l.kind = .leftParen) (hr : r.kind = .rightParen) :
    MadeOf ('(' :: (cs ++ [')'])) (l :: (ts ++ [r])) := by
  have hopen : MadeOf ['('] [l] := madeOf_token hl (List.Sublist.refl _)
  have hclose : MadeOf [')'] [r] := madeOf_token hr (List.Sublist.refl _)
  exact hopen.append (h.append hclose)

/-- A formula that binds tightly enough for its place stands there without parentheses. -/
theorem MadeOf.bare {c : Category} {e : Expr} {ts : List Token} (h : MadeOf e.chars ts)
    (hlevel : c.strength ≤ e.level) : MadeOf (guarded c.strength e.level e.chars) ts := by
  rwa [guarded_of_le hlevel]

/-- The canonical text of a formula, put in parentheses where its place demands it, is made of the
tokens of any phrase for the place that has the formula as its tree. -/
theorem Derives.madeOf {c : Category} {ts : List Token} {e : Expr} (h : Derives c ts e)
    (hts : ProperNames ts) : MadeOf (guarded c.strength e.level e.chars) ts := by
  have hternary (e : Expr) : guarded Category.ternary.strength e.level e.chars = e.chars :=
    guarded_of_le e.one_le_level _
  revert hts
  induction h using Derives.rec (motive_2 := fun ts args _ =>
    ProperNames ts → MadeOf (argChars args) ts) with
  | tighter hd _ ih =>
    intro hts
    have hs := strength_tighter hd
    exact (ih hts).of_sublist (guarded_sublist_guarded (by omega) _ _)
  | @choice q m ts us vs c a b _ hq _ hm _ ihc iha ihb =>
    intro hts
    simp only [properNames_append, properNames_cons] at hts
    obtain ⟨hc, -, ha, -, hb⟩ := hts
    have hquestion : MadeOf [' ', '?', ' '] [q] := madeOf_token hq (List.Sublist.refl _)
    have hcolon : MadeOf [' ', ':', ' '] [m] := madeOf_token hm (List.Sublist.refl _)
    have hcondition : MadeOf (guarded 2 c.level c.chars) ts := ihc hc
    have htrue := iha ha
    have hfalse := ihb hb
    rw [hternary] at htrue hfalse ⊢
    have hwhole := hcondition.append (hquestion.append (htrue.append (hcolon.append hfalse)))
    simpa [chars] using hwhole
  | @binary c d op t ts us a b hj _ _ iha ihb =>
    intro hts
    simp only [properNames_append, properNames_cons] at hts
    obtain ⟨ha, -, hb⟩ := hts
    have hleft := iha ha
    have hright := ihb hb
    rw [hj.strength_left] at hleft
    rw [hj.strength_right] at hright
    refine MadeOf.bare ?_ (Nat.le_of_eq hj.strength_left)
    have hwhole := hleft.append ((madeOf_operator hj).append hright)
    simpa [chars] using hwhole
  | @not t ts a ht _ ih =>
    intro hts
    have hmark : MadeOf (unaryMark .not) [t] := madeOf_token ht (List.Sublist.refl _)
    refine MadeOf.bare ?_ (Nat.le_refl 4)
    rw [chars]
    exact hmark.append (ih ((properNames_cons _ _).mp hts).2)
  | @neg t ts a ht _ ih =>
    intro hts
    -- A minus sign between operands has blanks around it, and one before an operand has none.
    have hmark : MadeOf (unaryMark .neg) [t] :=
      madeOf_token ht (List.infix_append [' '] ['-'] [' ']).sublist
    refine MadeOf.bare ?_ (Nat.le_refl 8)
    rw [chars]
    exact hmark.append (ih ((properNames_cons _ _).mp hts).2)
  | @number t x ht hx =>
    intro _
    have hsign : ¬ x.ticks < 0 := by
      simp [Finite.ticks, negative_eq_false_of_number? hx]
    have hlevel : (literal x).level = 9 := by rw [level, if_neg hsign]
    exact (madeOf_number ht hx).bare (Nat.le_of_eq hlevel.symm)
  | @named t ht =>
    intro _
    have hchars : (Expr.variable t.text).chars = t.chars := by
      rw [chars, Token.text, String.toList_ofList]
    have hname : MadeOf t.chars [t] := madeOf_token ht (List.Sublist.refl _)
    refine MadeOf.bare ?_ (Nat.le_refl 9)
    rwa [hchars]
  | group hl _ hr ih =>
    intro hts
    simp only [properNames_append, properNames_cons] at hts
    have hinner := ih hts.2.1
    rw [hternary] at hinner
    exact (hinner.enclosed hl hr).of_sublist (guarded_sublist _ _ _)
  | callNone hf hl hr =>
    intro hts
    have hname := ((properNames_cons _ _).mp hts).1 hf
    refine MadeOf.bare ?_ (Nat.le_refl 9)
    rw [callNamed, chars, argChars]
    exact (madeOf_upperCase hf hname).append (madeOf_nil.enclosed hl hr)
  | callSome hf hl _ hr ih =>
    intro hts
    simp only [properNames_append, properNames_cons] at hts
    obtain ⟨hname, -, hargs, -⟩ := hts
    refine MadeOf.bare ?_ (Nat.le_refl 9)
    rw [callNamed, chars]
    exact (madeOf_upperCase hf (hname hf)).append ((ih hargs).enclosed hl hr)
  | last _ ih hts =>
    have harg := ih hts
    rw [hternary] at harg
    rwa [argChars]
  | @more t ts us a rest _ ht hrest iha ih hts =>
    simp only [properNames_append, properNames_cons] at hts
    have hcomma : MadeOf [',', ' '] [t] := madeOf_token ht (List.Sublist.refl _)
    have harg := iha hts.1
    rw [hternary] at harg
    have hwhole := harg.append (hcomma.append (ih hts.2.2))
    cases hrest with
    | last => simpa [argChars] using hwhole
    | more => simpa [argChars] using hwhole

end Grammar

/-- The canonical text of a formula that is read from a text is made of the tokens of the text. -/
theorem Formula.exists_madeOf {limits : Limits} {text : String} {e : Expr}
    (h : parse limits text = .ok e) :
    ∃ ts, Cut 0 text.toList ts ∧ Grammar.InRange ts ∧ Grammar.MadeOf e.text.toList ts := by
  obtain ⟨-, -, htree, -⟩ := parse_eq_ok_iff_tree.mp h
  obtain ⟨ts, hscan, hderives⟩ := tree_eq_ok_iff.mp htree
  have hcut := scan_eq_iff.mp hscan
  have hmade := hderives.madeOf hcut.properNames
  have hbare : Expr.guarded Grammar.Category.ternary.strength e.level e.chars = e.chars :=
    Expr.guarded_of_le e.one_le_level _
  rw [hbare] at hmade
  have hchars : e.text.toList = e.chars := String.toList_ofList
  exact ⟨ts, hcut, hderives.inRange, hchars ▸ hmade⟩

end PayrollFormula
