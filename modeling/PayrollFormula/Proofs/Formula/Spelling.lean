import PayrollFormula.Proofs.Formula.Reading

/-!
# Whatever the parser reads is a phrase of the grammar

Every state of the parser accounts for the tokens read so far: each open frame stands for some of
them, and so does the formula in focus. `Spells` says this of the frames and `HasRead` of a state;
one token keeps it (`HasRead.feed`) and so does a whole run (`HasRead.run`). At the end all frames
are closed, and what is left is a derivation of the tree from all the tokens.
-/

set_option autoImplicit false

namespace PayrollFormula

namespace Grammar

open Parsing

/-- Arguments that are already read, the last one first, with the comma after each. -/
inductive Listed : List Token → List Expr → Prop where
  | none : Listed [] []
  | snoc {t : Token} {ts us : List Token} {a : Expr} {done : List Expr} :
      Listed ts done → Derives .ternary us a → t.kind = .comma →
      Listed (ts ++ (us ++ [t])) (a :: done)

/-- The tokens that open frames. Whatever a frame holds is a phrase of the category that its place
demands, and no frame stands on top of one that would have been closed before it. -/
inductive Spells : List Frame → List Token → Prop where
  | nil : Spells [] []
  | neg {t : Token} {fs : List Frame} {ts : List Token} :
      Spells fs ts → t.kind = .minus → Spells (.unary .neg :: fs) (ts ++ [t])
  | not {t : Token} {fs : List Frame} {ts : List Token} :
      Spells fs ts → Admits .negation fs → t.kind = .not →
      Spells (.unary .not :: fs) (ts ++ [t])
  | binary {c d : Category} {op : BinaryOp} {t : Token} {fs : List Frame} {ts us : List Token}
      {a : Expr} :
      Spells fs ts → Admits c fs → Joins c t.kind op d → Derives c us a →
      Spells (.binary op a :: fs) (ts ++ (us ++ [t]))
  | whenTrue {q : Token} {fs : List Frame} {ts us : List Token} {c : Expr} :
      Spells fs ts → Admits .ternary fs → Derives .disjunction us c → q.kind = .question →
      Spells (.whenTrue c :: fs) (ts ++ (us ++ [q]))
  | whenFalse {q m : Token} {fs : List Frame} {ts us vs : List Token} {c a : Expr} :
      Spells fs ts → Admits .ternary fs → Derives .disjunction us c → q.kind = .question →
      Derives .ternary vs a → m.kind = .colon →
      Spells (.whenFalse c a :: fs) (ts ++ (us ++ q :: (vs ++ [m])))
  | group {t : Token} {fs : List Frame} {ts : List Token} :
      Spells fs ts → t.kind = .leftParen → Spells (.group :: fs) (ts ++ [t])
  | args {f l : Token} {fs : List Frame} {ts us : List Token} {done : List Expr} :
      Spells fs ts → f.kind = .name → l.kind = .leftParen → Listed us done →
      Spells (.args f.text done :: fs) (ts ++ f :: l :: us)

/-- Arguments that were read, and those after them, are arguments. -/
theorem Listed.arguments {ts us : List Token} {done rest : List Expr} (h : Listed ts done)
    (hr : Arguments us rest) : Arguments (ts ++ us) (done.reverse ++ rest) := by
  induction h generalizing us rest with
  | none => exact hr
  | @snoc t ts vs a done _ ha ht ih =>
    have hmore := ih (.more ha ht hr)
    simpa using hmore

/-- Operators between two operands bind looser than unary minus and tighter than a choice. -/
theorem level_bounds (op : BinaryOp) : 2 ≤ op.level ∧ op.level ≤ 7 := by
  cases op <;> decide

/-- A unary operation may be read on top of any frames. -/
theorem admits_unary (fs : List Frame) : Admits .unary fs := by
  intro f _
  cases f with
  | unary op => cases op <;> decide
  | binary op a => exact Nat.le_trans (level_bounds op).2 (by decide)
  | whenTrue | whenFalse | group | args => simp [Frame.level, Category.ceiling]

/-- Frames whose innermost is below an operator's level admit the operator's category. -/
theorem Joins.admits {c d : Category} {k : TokenKind} {op : BinaryOp} {fs : List Frame}
    (h : Joins c k op d) (hfs : ∀ f ∈ fs.head?, f.level < op.level) : Admits c fs := by
  intro f hf
  have hlt := hfs f hf
  have hceil := h.ceiling_left
  omega

/-- Closing the innermost frame around a phrase that it waits for gives a phrase again. -/
theorem Spells.close {f : Frame} {fs : List Frame} {ts us : List Token} {c : Category} {e : Expr}
    (h : Spells (f :: fs) ts) (hf : 1 ≤ f.level) (he : Derives c us e) (ha : f.level ≤ c.ceiling) :
    ∃ d ts' us', Spells fs ts' ∧ ts ++ us = ts' ++ us' ∧ Derives d us' (f.close e) ∧
      Admits d fs ∧ f.level ≤ d.strength := by
  have hs := ceiling_le_strength c
  cases h with
  | @neg t _ ts h ht =>
    exact ⟨.unary, ts, t :: us, h, by simp, .neg ht (he.loosen (Nat.le_trans ha hs)),
      admits_unary fs, Nat.le_refl 8⟩
  | @not t _ ts h hfs ht =>
    exact ⟨.negation, ts, t :: us, h, by simp, .not ht (he.loosen (Nat.le_trans ha hs)),
      hfs, Nat.le_refl 4⟩
  | @binary c' d op t _ ts vs a h hfs hj hd =>
    exact ⟨c', ts, vs ++ t :: us, h, by simp, .binary hj hd (he.loosen (hj.strength_right_le ha)),
      hfs, Nat.le_of_eq hj.strength_left.symm⟩
  | @whenFalse q m _ ts vs ws c' a h hfs hc hq hd hm =>
    exact ⟨.ternary, ts, vs ++ q :: (ws ++ m :: us), h, by simp,
      .choice hc hq hd hm (he.loosen (Nat.le_trans ha hs)), hfs, Nat.le_refl 1⟩
  | whenTrue | group | args => cases hf

/-- Closing all frames of at least some level around a phrase gives a phrase of at least that
strength on top of frames below that level. -/
theorem Spells.collapse {n : Nat} {fs : List Frame} {ts us : List Token} {c : Category} {e : Expr}
    (h : Spells fs ts) (hn : 1 ≤ n) (he : Derives c us e) (ha : Admits c fs)
    (hc : n ≤ c.strength) :
    ∃ d ts' us', Spells (Parsing.collapse n fs e).1 ts' ∧ ts ++ us = ts' ++ us' ∧
      Derives d us' (Parsing.collapse n fs e).2 ∧ n ≤ d.strength ∧
      ∀ f ∈ (Parsing.collapse n fs e).1.head?, f.level < n := by
  induction fs generalizing ts us c e with
  | nil => exact ⟨c, ts, us, h, rfl, he, hc, by simp [Parsing.collapse]⟩
  | cons f fs ih =>
    by_cases hf : n ≤ f.level
    · rw [collapse_cons_of_le hf]
      rw [admits_cons] at ha
      obtain ⟨d, ts', us', h', heq, hd, had, hds⟩ := h.close (by omega) he ha
      rw [heq]
      exact ih h' hd had (by omega)
    · rw [collapse_cons_of_lt (by omega)]
      refine ⟨c, ts, us, h, rfl, he, hc, ?_⟩
      simp only [List.head?_cons, Option.mem_some_iff, forall_eq']
      omega

/-- The tokens that a state has read: those that open its frames, and after them those of the
formula in focus. -/
def HasRead (s : State) (ts : List Token) : Prop :=
  match s.focus with
  | .operand => Spells s.frames ts
  | .firstArg => Spells s.frames ts ∧ ∃ name fs, s.frames = .args name [] :: fs
  | .named name =>
    ∃ ts' t, ts = ts' ++ [t] ∧ Spells s.frames ts' ∧ t.kind = .name ∧ t.text = name
  | .complete e => ∃ ts' us, ts = ts' ++ us ∧ Spells s.frames ts' ∧ Derives .atom us e

/-- What a state with a formula in focus has read ends with the formula. -/
theorem HasRead.atom {s : State} {ts : List Token} {e : Expr} (h : HasRead s ts)
    (he : focusTree? s.focus = some e) :
    ∃ ts' us, ts = ts' ++ us ∧ Spells s.frames ts' ∧ Derives .atom us e := by
  obtain ⟨fs, focus⟩ := s
  cases focus with
  | operand | firstArg => cases he
  | named name =>
    cases he
    obtain ⟨ts', t, hts, hs, ht, rfl⟩ := h
    exact ⟨ts', [t], hts, hs, .named ht⟩
  | complete a =>
    cases he
    exact h

/-- The outcome of closing frames around an atom, as it is used after the atom. -/
theorem Spells.collapse_atom {fs fs' : List Frame} {ts us : List Token} {a e : Expr} (n : Nat)
    (h : Spells fs ts) (ha : Derives .atom us a) (hn : 1 ≤ n) (hn' : n ≤ 9)
    (hc : Parsing.collapse n fs a = (fs', e)) :
    ∃ d ts' us', Spells fs' ts' ∧ ts ++ us = ts' ++ us' ∧ Derives d us' e ∧ n ≤ d.strength ∧
      ∀ f ∈ fs'.head?, f.level < n := by
  have hcol := h.collapse hn ha (admits_unary fs) hn'
  rw [hc] at hcol
  exact hcol

/-- A token that is read after an atom leaves a state that has read it too. -/
theorem Spells.readAfter {fs : List Frame} {ts us : List Token} {a : Expr} {t : Token} {s : State}
    (h : Spells fs ts) (ha : Derives .atom us a) (hs : Parsing.readAfter fs a t = some s) :
    HasRead s (ts ++ us ++ [t]) := by
  rw [Parsing.readAfter] at hs
  split at hs
  · next op hop =>
    obtain ⟨c, d, hj⟩ := exists_joins hop
    have hl := level_bounds op
    rcases hc : Parsing.collapse op.level fs a with ⟨fs', e⟩
    rw [hc] at hs
    obtain ⟨d', ts', us', h', heq, he, hd, hlt⟩ :=
      h.collapse_atom op.level ha (by omega) (by omega) hc
    cases hs
    rw [heq, List.append_assoc]
    exact .binary h' (hj.admits hlt) hj (he.loosen (by rw [hj.strength_left]; exact hd))
  · split at hs
    · next hk =>
      rcases hc : Parsing.collapse BinaryOp.or.level fs a with ⟨fs', e⟩
      rw [hc] at hs
      obtain ⟨d', ts', us', h', heq, he, hd, hlt⟩ := h.collapse_atom 2 ha (by omega) (by omega) hc
      cases hs
      rw [heq, List.append_assoc]
      exact .whenTrue h' (fun f hf => Nat.le_of_lt_succ (hlt f hf)) (he.loosen hd) hk
    · next hk =>
      split at hs
      · next c fs' e hc =>
        obtain ⟨d', ts', us', h', heq, he, hd, -⟩ := h.collapse_atom 1 ha (by omega) (by omega) hc
        cases hs
        cases h' with
        | @whenTrue q _ vs ws _ h' hfs' hder hq =>
          rw [heq]
          have hspell := Spells.whenFalse h' hfs' hder hq (he.loosen hd) hk
          simpa [HasRead] using hspell
      · cases hs
    · next hk =>
      split at hs
      · next name done fs' e hc =>
        obtain ⟨d', ts', us', h', heq, he, hd, -⟩ := h.collapse_atom 1 ha (by omega) (by omega) hc
        cases hs
        cases h' with
        | @args f l _ vs ws _ h' hf hl hdone =>
          rw [heq]
          have hspell := Spells.args h' hf hl (.snoc hdone (he.loosen hd) hk)
          simpa [HasRead] using hspell
      · cases hs
    · next hk =>
      split at hs
      · next fs' e hc =>
        obtain ⟨d', ts', us', h', heq, he, hd, -⟩ := h.collapse_atom 1 ha (by omega) (by omega) hc
        cases hs
        cases h' with
        | @group l _ vs h' hl =>
          rw [heq]
          exact ⟨vs, l :: (us' ++ [t]), by simp, h', .group hl (he.loosen hd) hk⟩
      · next name done fs' e hc =>
        obtain ⟨d', ts', us', h', heq, he, hd, -⟩ := h.collapse_atom 1 ha (by omega) (by omega) hc
        cases hs
        cases h' with
        | @args f l _ vs ws _ h' hf hl hdone =>
          rw [heq]
          have hargs := hdone.arguments (.last (he.loosen hd))
          refine ⟨vs, f :: l :: ((ws ++ us') ++ [t]), by simp, h', ?_⟩
          rw [List.reverse_cons]
          exact .callSome hf hl hargs hk
      · cases hs
    · cases hs

/-- A token with which an operand starts is read on top of open frames. -/
theorem Spells.readStart {fs : List Frame} {ts : List Token} {t : Token} {s : State}
    (h : Spells fs ts) (ht : t.isOutOfRange = false) (hs : Parsing.readStart fs t = some s) :
    HasRead s (ts ++ [t]) := by
  rw [Parsing.readStart] at hs
  split at hs
  · next hk =>
    cases hs
    have hx : ∃ x, t.number? = some x := by
      simpa [Token.isOutOfRange, hk, Option.isSome_iff_exists] using ht
    obtain ⟨x, hx⟩ := hx
    refine ⟨ts, [t], rfl, h, ?_⟩
    rw [Token.number, hx]
    exact .number hk hx
  · next hk =>
    cases hs
    exact ⟨ts, t, rfl, h, hk, rfl⟩
  · next hk =>
    cases hs
    exact .group h hk
  · next hk =>
    cases hs
    exact .neg h hk
  · next hk =>
    split at hs
    · next hallows =>
      cases hs
      refine .not h ?_ hk
      cases fs with
      | nil => exact admits_nil _
      | cons f fs => exact (admits_cons _ _ _).mpr (of_decide_eq_true hallows)
    · cases hs
  · cases hs

/-- One token more is read: the state after it has read all tokens so far. -/
theorem HasRead.feed {s s' : State} {ts : List Token} {t : Token} (h : HasRead s ts)
    (ht : t.isOutOfRange = false) (hs : Parsing.feed s t = some s') :
    HasRead s' (ts ++ [t]) := by
  obtain ⟨fs, focus⟩ := s
  cases focus with
  | operand => exact Spells.readStart h ht hs
  | firstArg =>
    obtain ⟨hspell, name, rest, hfs⟩ := h
    cases hfs
    simp only [Parsing.feed] at hs
    split at hs
    · next hk hfs =>
      cases hs
      cases hfs
      cases hspell with
      | @args f l _ ts us _ h hf hl hdone =>
        cases hdone
        exact ⟨ts, [f, l, t], by simp, h, .callNone hf hl hk⟩
    · exact Spells.readStart hspell ht hs
  | named name =>
    obtain ⟨ts', n, rfl, hspell, hn, rfl⟩ := h
    simp only [Parsing.feed] at hs
    split at hs
    · next hk =>
      cases hs
      have hspell' := Spells.args hspell hn hk .none
      exact ⟨by simpa using hspell', n.text, fs, rfl⟩
    · exact Spells.readAfter hspell (.named hn) hs
  | complete e =>
    obtain ⟨ts', us, rfl, hspell, he⟩ := h
    exact Spells.readAfter hspell he hs

/-- At first, nothing has been read. -/
theorem hasRead_initial : HasRead initial [] := .nil

/-- What is read comes after what was read before. -/
theorem HasRead.run {s s' : State} {ts us : List Token} (h : HasRead s ts) (hu : InRange us)
    (hrun : Parsing.run s us = .ok s') : HasRead s' (ts ++ us) := by
  induction us generalizing s ts with
  | nil =>
    cases hrun
    rw [List.append_nil]
    exact h
  | cons u us ih =>
    rw [inRange_cons] at hu
    rw [Parsing.run] at hrun
    cases hf : Parsing.feed s u with
    | none => simp [hf] at hrun
    | some s₁ =>
      rw [hf] at hrun
      have hall := ih (h.feed hu.1 hf) hu.2 hrun
      rwa [List.append_assoc] at hall

/-- If the text may end after some tokens, they are a formula with the tree that is found. -/
theorem HasRead.finish {s : State} {ts : List Token} {e : Expr} (h : HasRead s ts)
    (hs : Parsing.finish s = some e) : Derives .ternary ts e := by
  cases hfocus : focusTree? s.focus with
  | none =>
    obtain ⟨fs, focus⟩ := s
    cases focus <;> cases hfocus <;> cases hs
  | some a =>
    obtain ⟨ts', us, rfl, hspell, ha⟩ := h.atom hfocus
    rcases hc : collapse 1 s.frames a with ⟨fs, tree⟩
    obtain ⟨d, vs, ws, hspell', heq, hd, hle, -⟩ :=
      hspell.collapse_atom 1 ha (by omega) (by omega) hc
    cases fs with
    | nil =>
      rw [finish_of_focusTree hfocus hc] at hs
      cases hs
      cases hspell'
      rw [heq]
      exact hd.loosen hle
    | cons f fs =>
      obtain ⟨gs, focus⟩ := s
      cases focus <;> cases hfocus <;> simp [Parsing.finish, hc] at hs

/-- The parser ends with a tree exactly if the tokens are a formula with this tree. -/
theorem run_finish_iff {ts : List Token} {e : Expr} (hr : InRange ts) :
    (∃ s, Parsing.run initial ts = .ok s ∧ Parsing.finish s = some e) ↔ Derives .ternary ts e := by
  constructor
  · rintro ⟨s, hrun, hs⟩
    have hread := hasRead_initial.run hr hrun
    rw [List.nil_append] at hread
    exact hread.finish hs
  · intro h
    exact h.run_initial

end Grammar

end PayrollFormula
