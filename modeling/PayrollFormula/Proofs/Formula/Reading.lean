import PayrollFormula.Proofs.Formula.Grammar

/-!
# The parser reads every phrase of the grammar

A phrase that is read on top of open frames leaves a state behind from which closing frames gives
the same as closing them around the tree of the phrase (`Derives.reads`). So a whole formula is read
to its end, and the parser finds its tree (`Derives.run_initial`). As the parser has one answer for
every list of tokens, the grammar derives at most one tree from it (`Derives.unique`).
-/

set_option autoImplicit false

namespace PayrollFormula

namespace Grammar

open Parsing

/-- The greatest level of a frame that may wait for a phrase of a category. -/
def Category.ceiling : Category → Nat
  | .ternary | .disjunction => 1
  | .conjunction => 2
  | .negation | .comparison => 4
  | .additive => 5
  | .multiplicative => 6
  | .unary | .atom => 8

/-- Whether a phrase of a category may be read on top of open frames. -/
def Admits (c : Category) (fs : List Frame) : Prop := ∀ f ∈ fs.head?, f.level ≤ c.ceiling

/-- Without open frames, every category is admitted. -/
@[simp] theorem admits_nil (c : Category) : Admits c [] := by
  simp [Admits]

/-- A category is admitted if the innermost frame admits it. -/
@[simp] theorem admits_cons (c : Category) (f : Frame) (fs : List Frame) :
    Admits c (f :: fs) ↔ f.level ≤ c.ceiling := by
  simp [Admits]

/-- Frames that admit a phrase admit any tighter one. -/
theorem Admits.tighten {c d : Category} {fs : List Frame} (h : Admits c fs)
    (hd : c.tighter? = some d) : Admits d fs := by
  intro f hf
  have hle : c.ceiling ≤ d.ceiling := by
    cases c <;> cases hd <;> decide
  exact Nat.le_trans (h f hf) hle

/-- A phrase of an operator's category may be read up to just below the operator's level. -/
theorem Joins.ceiling_left {c d : Category} {k : TokenKind} {op : BinaryOp}
    (h : Joins c k op d) : c.ceiling + 1 = op.level := by
  cases h <;> decide

/-- The frame of an operator waits for a phrase of the right operand's category. -/
theorem Joins.ceiling_right {c d : Category} {k : TokenKind} {op : BinaryOp}
    (h : Joins c k op d) : op.level ≤ d.ceiling := by
  cases h <;> decide

/-- A phrase after an operator is tight enough for what the operator may stand in. -/
theorem Joins.strength_right_le {c d c' : Category} {k : TokenKind} {op : BinaryOp}
    (h : Joins c k op d) (hc : op.level ≤ c'.ceiling) : d.strength ≤ c'.strength := by
  cases h <;> cases c' <;> revert hc <;> decide

/-- No frame that waits for a phrase binds tighter than the phrase. -/
theorem ceiling_le_strength (c : Category) : c.ceiling ≤ c.strength := by
  cases c <;> decide

/-! ## Steps of the parser -/

/-- Reading more tokens goes on from the state after the first ones. -/
theorem run_append {s s' : State} {ts : List Token} (h : run s ts = .ok s') (us : List Token) :
    run s (ts ++ us) = run s' us := by
  induction ts generalizing s with
  | nil =>
    cases h
    rfl
  | cons t ts ih =>
    rw [run] at h
    rw [List.cons_append, run]
    cases hf : feed s t with
    | none => simp [hf] at h
    | some s₁ =>
      rw [hf] at h
      exact ih h

/-- The parser goes on with the other tokens after the first. -/
theorem run_cons {s u : State} {t : Token} (h : feed s t = some u) (ts : List Token) :
    run s (t :: ts) = run u ts := by
  rw [run, h]

/-- The formula in focus, if there is one; a name counts as a variable. -/
def focusTree? : Focus → Option Expr
  | .operand | .firstArg => none
  | .named name => some (.variable name)
  | .complete e => some e

/-- After a formula, any token but an opening parenthesis is read as one that follows it. -/
theorem feed_of_focusTree {s : State} {e : Expr} {t : Token} (h : focusTree? s.focus = some e)
    (ht : t.kind ≠ .leftParen) : feed s t = readAfter s.frames e t := by
  obtain ⟨fs, focus⟩ := s
  cases focus with
  | operand | firstArg => cases h
  | named name =>
    cases h
    simp only [feed]
  | complete a =>
    cases h
    rfl

/-- The end of the text closes all frames around the formula in focus. -/
theorem finish_of_focusTree {s : State} {a e : Expr} (h : focusTree? s.focus = some a)
    (hc : collapse 1 s.frames a = ([], e)) : finish s = some e := by
  obtain ⟨fs, focus⟩ := s
  cases focus with
  | operand | firstArg => cases h
  | named name | complete a =>
    cases h
    simp only [finish, hc]

/-- A frame that binds tightly enough is closed. -/
theorem collapse_cons_of_le {n : Nat} {f : Frame} (h : n ≤ f.level) (fs : List Frame) (e : Expr) :
    collapse n (f :: fs) e = collapse n fs (f.close e) := by
  rw [collapse, if_pos h]

/-- A frame that binds too loosely stays open, and those beneath it. -/
theorem collapse_cons_of_lt {n : Nat} {f : Frame} (h : f.level < n) (fs : List Frame) (e : Expr) :
    collapse n (f :: fs) e = (f :: fs, e) := by
  rw [collapse, if_neg (by omega)]

/-- Frames that admit a category stay open at the levels above its ceiling. -/
theorem Admits.collapse {c : Category} {n : Nat} {fs : List Frame} (h : Admits c fs)
    (hn : c.ceiling < n) (e : Expr) : Parsing.collapse n fs e = (fs, e) := by
  cases fs with
  | nil => rfl
  | cons f fs =>
    rw [admits_cons] at h
    exact collapse_cons_of_lt (by omega) fs e

/-! ## Phrases are read -/

/-- A state that is left behind by a phrase on top of open frames: closing frames at a level of at
most `n` gives the same as closing them around the tree of the phrase. -/
def Pending (n : Nat) (fs : List Frame) (e : Expr) (s : State) : Prop :=
  ∃ a, focusTree? s.focus = some a ∧ ∀ m ≤ n, collapse m s.frames a = collapse m fs e

/-- A phrase that is pending at a level is so at every lower one. -/
theorem Pending.mono {n m : Nat} {fs : List Frame} {e : Expr} {s : State} (h : Pending n fs e s)
    (hm : m ≤ n) : Pending m fs e s := by
  obtain ⟨a, ha, hc⟩ := h
  exact ⟨a, ha, fun k hk => hc k (by omega)⟩

/-- A formula in focus is pending. -/
theorem Pending.self {n : Nat} {fs : List Frame} {focus : Focus} {e : Expr}
    (h : focusTree? focus = some e) : Pending n fs e ⟨fs, focus⟩ :=
  ⟨e, h, fun _ _ => rfl⟩

/-- A frame on top of the open ones may be taken as closed around the phrase. -/
theorem Pending.close {n : Nat} {f : Frame} {fs : List Frame} {e : Expr} {s : State}
    (h : Pending n (f :: fs) e s) (hf : n ≤ f.level) : Pending n fs (f.close e) s := by
  obtain ⟨a, ha, hc⟩ := h
  exact ⟨a, ha, fun m hm => by rw [hc m hm, collapse_cons_of_le (by omega)]⟩

/-- A token that follows a phrase is read as one that follows its tree. -/
theorem Pending.feed {n : Nat} {fs : List Frame} {e : Expr} {s : State} {t : Token}
    {k : TokenKind} (h : Pending n fs e s) (ht : t.kind = k) (hk : k ≠ .leftParen) :
    ∃ a, Parsing.feed s t = readAfter s.frames a t ∧
      ∀ m ≤ n, Parsing.collapse m s.frames a = Parsing.collapse m fs e := by
  obtain ⟨a, ha, hc⟩ := h
  exact ⟨a, feed_of_focusTree ha (ht ▸ hk), hc⟩

/-- An operator after a pending phrase waits for its other operand. -/
theorem Pending.feed_binary {c d : Category} {op : BinaryOp} {fs : List Frame} {e : Expr}
    {s : State} {t : Token} (h : Pending c.strength fs e s) (hj : Joins c t.kind op d)
    (hfs : Admits c fs) : Parsing.feed s t = some ⟨.binary op e :: fs, .operand⟩ := by
  obtain ⟨a, hf, hc⟩ := h.feed rfl hj.kind_ne_leftParen
  have hfs' := hc op.level (Nat.le_of_eq hj.strength_left.symm)
  rw [hfs.collapse (Nat.lt_of_succ_le (Nat.le_of_eq hj.ceiling_left))] at hfs'
  rw [hf, readAfter, hj.binaryOp?]
  simp only [hfs']

/-- A question mark after a pending phrase makes it a condition. -/
theorem Pending.feed_question {fs : List Frame} {e : Expr} {s : State} {t : Token}
    (h : Pending 2 fs e s) (ht : t.kind = .question) (hfs : Admits .ternary fs) :
    Parsing.feed s t = some ⟨.whenTrue e :: fs, .operand⟩ := by
  obtain ⟨a, hf, hc⟩ := h.feed ht (by decide)
  have hfs' := hc 2 (by omega)
  rw [hfs.collapse (by decide)] at hfs'
  rw [hf, readAfter, ht]
  simp only [binaryOp?, BinaryOp.level, hfs']

/-- A token that closes the frame below a phrase reads the phrase as a whole. -/
theorem Pending.collapse_one {f : Frame} {fs : List Frame} {e : Expr} {s : State} {t : Token}
    {k : TokenKind} (h : Pending 1 (f :: fs) e s) (hf : f.level = 0) (ht : t.kind = k)
    (hk : k ≠ .leftParen) :
    ∃ a, Parsing.feed s t = readAfter s.frames a t ∧
      Parsing.collapse 1 s.frames a = (f :: fs, e) := by
  obtain ⟨a, hfeed, hc⟩ := h.feed ht hk
  exact ⟨a, hfeed, by rw [hc 1 (by omega), collapse_cons_of_lt (by omega)]⟩

/-- A colon after a pending phrase ends the first alternative of a choice. -/
theorem Pending.feed_colon {fs : List Frame} {c e : Expr} {s : State} {t : Token}
    (h : Pending 1 (.whenTrue c :: fs) e s) (ht : t.kind = .colon) :
    Parsing.feed s t = some ⟨.whenFalse c e :: fs, .operand⟩ := by
  obtain ⟨a, hf, hc⟩ := h.collapse_one rfl ht (by decide)
  rw [hf, readAfter, ht]
  simp only [binaryOp?, hc]

/-- A comma after a pending phrase ends an argument. -/
theorem Pending.feed_comma {fs : List Frame} {name : String} {done : List Expr} {e : Expr}
    {s : State} {t : Token} (h : Pending 1 (.args name done :: fs) e s) (ht : t.kind = .comma) :
    Parsing.feed s t = some ⟨.args name (e :: done) :: fs, .operand⟩ := by
  obtain ⟨a, hf, hc⟩ := h.collapse_one rfl ht (by decide)
  rw [hf, readAfter, ht]
  simp only [binaryOp?, hc]

/-- A closing parenthesis after a pending phrase ends a group. -/
theorem Pending.feed_group {fs : List Frame} {e : Expr} {s : State} {t : Token}
    (h : Pending 1 (.group :: fs) e s) (ht : t.kind = .rightParen) :
    Parsing.feed s t = some ⟨fs, .complete e⟩ := by
  obtain ⟨a, hf, hc⟩ := h.collapse_one rfl ht (by decide)
  rw [hf, readAfter, ht]
  simp only [binaryOp?, hc]

/-- A closing parenthesis after a pending phrase ends a call. -/
theorem Pending.feed_args {fs : List Frame} {name : String} {done : List Expr} {e : Expr}
    {s : State} {t : Token} (h : Pending 1 (.args name done :: fs) e s)
    (ht : t.kind = .rightParen) :
    Parsing.feed s t = some ⟨fs, .complete (.callNamed name (e :: done).reverse)⟩ := by
  obtain ⟨a, hf, hc⟩ := h.collapse_one rfl ht (by decide)
  rw [hf, readAfter, ht]
  simp only [binaryOp?, hc]

/-- Where arguments may start, a phrase is read as one anywhere else. -/
theorem run_firstArg {ts : List Token} {fs : List Frame}
    (h : ∃ t rest, ts = t :: rest ∧ startsPhrase t.kind = true) :
    run ⟨fs, .firstArg⟩ ts = run ⟨fs, .operand⟩ ts := by
  obtain ⟨t, rest, rfl, ht⟩ := h
  have hfeed : feed ⟨fs, .firstArg⟩ t = feed ⟨fs, .operand⟩ t := by
    simp only [feed]
    split
    · next hk => simp [hk, startsPhrase] at ht
    · rfl
  rw [run, run, hfeed]

/-- What is read of a phrase on top of open frames that admit it. -/
def Reads (fs : List Frame) (ts : List Token) (n : Nat) (e : Expr) : Prop :=
  ∃ s, run ⟨fs, .operand⟩ ts = .ok s ∧ Pending n fs e s

/-- What is read of arguments behind those that are already read. -/
def ReadsArguments (ts : List Token) (args : List Expr) : Prop :=
  ∀ (fs : List Frame) (name : String) (done : List Expr), ∃ s done' a,
    run ⟨.args name done :: fs, .operand⟩ ts = .ok s ∧
      Pending 1 (.args name done' :: fs) a s ∧ (a :: done').reverse = done.reverse ++ args

/-- A phrase is read on top of all frames that admit it, and leaves its tree behind. -/
theorem Derives.reads {c : Category} {ts : List Token} {e : Expr} (h : Derives c ts e)
    (fs : List Frame) (hfs : Admits c fs) : Reads fs ts c.strength e := by
  induction h using Derives.rec (motive_2 := fun ts args _ => ReadsArguments ts args)
    generalizing fs with
  | tighter hd _ ih =>
    obtain ⟨s, hrun, hp⟩ := ih fs (hfs.tighten hd)
    have hs := strength_tighter hd
    exact ⟨s, hrun, hp.mono (by omega)⟩
  | @choice q m ts us vs c a b _ hq _ hm _ ihc iha ihb =>
    obtain ⟨s₁, hrun₁, hp₁⟩ := ihc fs (fun f hf => hfs f hf)
    obtain ⟨s₂, hrun₂, hp₂⟩ := iha (.whenTrue c :: fs) (by simp [Frame.level])
    obtain ⟨s₃, hrun₃, hp₃⟩ := ihb (.whenFalse c a :: fs) (by simp [Frame.level, Category.ceiling])
    refine ⟨s₃, ?_, hp₃.close (Nat.le_refl 1)⟩
    rw [run_append hrun₁, run_cons (hp₁.feed_question hq hfs), run_append hrun₂,
      run_cons (hp₂.feed_colon hm), hrun₃]
  | @binary c d op t ts us a b hj _ _ iha ihb =>
    obtain ⟨s₁, hrun₁, hp₁⟩ := iha fs hfs
    obtain ⟨s₂, hrun₂, hp₂⟩ := ihb (.binary op a :: fs)
      ((admits_cons _ _ _).mpr hj.ceiling_right)
    have hl := hj.strength_left
    have hr := hj.strength_right
    refine ⟨s₂, ?_, (hp₂.mono (by omega)).close (Nat.le_of_eq hl)⟩
    rw [run_append hrun₁, run_cons (hp₁.feed_binary hj hfs), hrun₂]
  | @not t ts a ht _ ih =>
    obtain ⟨s, hrun, hp⟩ := ih (.unary .not :: fs) (by simp [Frame.level, UnaryOp.level,
      Category.ceiling])
    refine ⟨s, ?_, hp.close (Nat.le_refl 4)⟩
    have hallows : allowsNot fs = true := by
      cases fs with
      | nil => rfl
      | cons f fs => exact decide_eq_true ((admits_cons _ _ _).mp hfs)
    rw [run_cons (u := ⟨.unary .not :: fs, .operand⟩) (by simp [feed, readStart, ht, hallows]),
      hrun]
  | @neg t ts a ht _ ih =>
    obtain ⟨s, hrun, hp⟩ := ih (.unary .neg :: fs) (by simp [Frame.level, UnaryOp.level,
      Category.ceiling])
    refine ⟨s, ?_, hp.close (Nat.le_refl 8)⟩
    rw [run_cons (u := ⟨.unary .neg :: fs, .operand⟩) (by simp [feed, readStart, ht]), hrun]
  | @number t x ht hx =>
    refine ⟨⟨fs, .complete (.literal x)⟩, ?_, .self rfl⟩
    rw [run_cons (u := ⟨fs, .complete (.literal x)⟩)
      (by simp [feed, readStart, ht, Token.number, hx]), run]
  | @named t ht =>
    refine ⟨⟨fs, .named t.text⟩, ?_, .self rfl⟩
    rw [run_cons (u := ⟨fs, .named t.text⟩) (by simp [feed, readStart, ht]), run]
  | @group l r ts e hl _ hr ih =>
    obtain ⟨s, hrun, hp⟩ := ih (.group :: fs) (by simp [Frame.level])
    refine ⟨⟨fs, .complete e⟩, ?_, .self rfl⟩
    rw [run_cons (u := ⟨.group :: fs, .operand⟩) (by simp [feed, readStart, hl]),
      run_append hrun, run_cons (hp.feed_group hr), run]
  | @callNone f l r hf hl hr =>
    refine ⟨⟨fs, .complete (.callNamed f.text [])⟩, ?_, .self rfl⟩
    rw [run_cons (u := ⟨fs, .named f.text⟩) (by simp [feed, readStart, hf]),
      run_cons (u := ⟨.args f.text [] :: fs, .firstArg⟩) (by simp [feed, hl]),
      run_cons (u := ⟨fs, .complete (.callNamed f.text [])⟩) (by simp [feed, hr]), run]
  | @callSome f l r ts args hf hl hargs hr ih =>
    obtain ⟨s, done, a, hrun, hp, hdone⟩ := ih fs f.text []
    refine ⟨⟨fs, .complete (.callNamed f.text args)⟩, ?_, .self rfl⟩
    have hfirst : run ⟨.args f.text [] :: fs, .firstArg⟩ ts = .ok s := by
      rw [run_firstArg hargs.exists_cons, hrun]
    have hclose := hp.feed_args hr
    rw [hdone, List.reverse_nil, List.nil_append] at hclose
    rw [run_cons (u := ⟨fs, .named f.text⟩) (by simp [feed, readStart, hf]),
      run_cons (u := ⟨.args f.text [] :: fs, .firstArg⟩) (by simp [feed, hl]),
      run_append hfirst, run_cons hclose, run]
  | @last ts a _ ih =>
    intro fs name done
    obtain ⟨s, hrun, hp⟩ := ih (.args name done :: fs) (by simp [Frame.level])
    exact ⟨s, done, a, hrun, hp, by simp⟩
  | @more t ts us a rest _ ht _ iha ihr =>
    intro fs name done
    obtain ⟨s₁, hrun₁, hp₁⟩ := iha (.args name done :: fs) (by simp [Frame.level])
    obtain ⟨s₂, done', b, hrun₂, hp₂, hdone⟩ := ihr fs name (a :: done)
    refine ⟨s₂, done', b, ?_, hp₂, by simp [hdone]⟩
    rw [run_append hrun₁, run_cons (hp₁.feed_comma ht), hrun₂]

/-- A whole phrase is read from the start, and the parser may end with its tree. -/
theorem Derives.run_initial {ts : List Token} {e : Expr} (h : Derives .ternary ts e) :
    ∃ s, run initial ts = .ok s ∧ finish s = some e := by
  obtain ⟨s, hrun, a, ha, hc⟩ := h.reads [] (admits_nil _)
  exact ⟨s, hrun, finish_of_focusTree ha (hc 1 (Nat.le_refl 1))⟩

/-- Tokens have at most one tree. -/
theorem Derives.unique {ts : List Token} {a b : Expr} (ha : Derives .ternary ts a)
    (hb : Derives .ternary ts b) : a = b := by
  obtain ⟨s, hs, hsa⟩ := ha.run_initial
  obtain ⟨s', hs', hsb⟩ := hb.run_initial
  have heq : s = s' := Except.ok.inj (hs.symm.trans hs')
  subst heq
  exact Option.some.inj (hsa.symm.trans hsb)

end Grammar

end PayrollFormula
