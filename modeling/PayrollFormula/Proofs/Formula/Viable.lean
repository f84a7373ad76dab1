import Mathlib.Data.List.Basic
import PayrollFormula.Proofs.Formula.Spelling

/-!
# Beginnings of formulas

Whether tokens are a formula depends on their kinds only, as long as no numeral is beyond the range
of doubles (`Derives.alike`). So the words of the grammar are lists of kinds: `Sentence` says
that tokens of these kinds are a formula, and `Viable` that some tokens begin like a formula.

The parser reads some tokens to their end exactly if they are viable (`exists_run_iff_viable`): it
refuses nothing that could be continued, since every sentence is read, and it accepts nothing else,
since some tokens lead from each of its states to the end of a formula (`completes`).
-/

set_option autoImplicit false

namespace PayrollFormula

namespace Grammar

open Parsing

/-- Whether a list of kinds is that of the tokens of a formula. -/
def Sentence (ks : List TokenKind) : Prop := ∃ ts e, ts.map Token.kind = ks ∧ Derives .ternary ts e

/-- Whether the kinds of some tokens are the beginning of a sentence. -/
def Viable (ts : List Token) : Prop := ∃ ks, Sentence (ts.map Token.kind ++ ks)

/-! ## Kinds decide -/

/-- Whether the second of two lists of tokens has the kinds of the first and no numeral beyond the
range of doubles. -/
structure Alike (ts us : List Token) : Prop where
  kinds : us.map Token.kind = ts.map Token.kind
  inRange : InRange us

section Alike

variable {t : Token} {ts us vs : List Token}

/-- Only the empty list of tokens is like the empty one. -/
theorem Alike.eq_nil (h : Alike [] vs) : vs = [] := List.map_eq_nil_iff.mp h.kinds

/-- Tokens like some one after another are like each of them in turn. -/
theorem Alike.append_inv (h : Alike (ts ++ us) vs) :
    ∃ ts' us', vs = ts' ++ us' ∧ Alike ts ts' ∧ Alike us us' := by
  obtain ⟨hk, hr⟩ := h
  rw [List.map_append] at hk
  obtain ⟨ts', us', rfl, hts, hus⟩ := List.map_eq_append_iff.mp hk
  obtain ⟨hr, hr'⟩ := (inRange_append _ _).mp hr
  exact ⟨ts', us', rfl, ⟨hts, hr⟩, ⟨hus, hr'⟩⟩

/-- Tokens like some start with a token of the same kind that is in range. -/
theorem Alike.cons_inv {k : TokenKind} (h : Alike (t :: ts) vs) (ht : t.kind = k) :
    ∃ u us, vs = u :: us ∧ u.kind = k ∧ u.isOutOfRange = false ∧ Alike ts us := by
  obtain ⟨hk, hr⟩ := h
  rw [List.map_cons] at hk
  obtain ⟨u, us, rfl, hu, hus⟩ := List.map_eq_cons_iff.mp hk
  obtain ⟨hr, hr'⟩ := (inRange_cons _ _).mp hr
  exact ⟨u, us, rfl, hu.trans ht, hr, ⟨hus, hr'⟩⟩

end Alike

/-- Tokens of the same kinds as those of a phrase are a phrase if their numerals are in range. -/
theorem Derives.alike {c : Category} {ts us : List Token} {e : Expr} (h : Derives c ts e)
    (hus : Alike ts us) : ∃ e', Derives c us e' := by
  -- The tokens are split as the phrase is; what a list of arguments becomes is a list of them.
  induction h using Derives.rec
    (motive_2 := fun ts _ _ => ∀ us, Alike ts us → ∃ args, Arguments us args)
    generalizing us with
  | tighter hd _ ih =>
    obtain ⟨e', h'⟩ := ih hus
    exact ⟨e', .tighter hd h'⟩
  | choice _ hq _ hm _ ihc iha ihb =>
    obtain ⟨cs, rest, rfl, hcs, hrest⟩ := hus.append_inv
    obtain ⟨q', rest, rfl, hq', -, hrest⟩ := hrest.cons_inv hq
    obtain ⟨as, rest, rfl, has, hrest⟩ := hrest.append_inv
    obtain ⟨m', bs, rfl, hm', -, hbs⟩ := hrest.cons_inv hm
    obtain ⟨c', hc⟩ := ihc hcs
    obtain ⟨a', ha⟩ := iha has
    obtain ⟨b', hb⟩ := ihb hbs
    exact ⟨_, .choice hc hq' ha hm' hb⟩
  | binary hj _ _ iha ihb =>
    obtain ⟨as, rest, rfl, has, hrest⟩ := hus.append_inv
    obtain ⟨t', bs, rfl, ht', -, hbs⟩ := hrest.cons_inv rfl
    obtain ⟨a', ha⟩ := iha has
    obtain ⟨b', hb⟩ := ihb hbs
    exact ⟨_, .binary (ht' ▸ hj) ha hb⟩
  | not ht _ ih =>
    obtain ⟨t', rest, rfl, ht', -, hrest⟩ := hus.cons_inv ht
    obtain ⟨a', ha⟩ := ih hrest
    exact ⟨_, .not ht' ha⟩
  | neg ht _ ih =>
    obtain ⟨t', rest, rfl, ht', -, hrest⟩ := hus.cons_inv ht
    obtain ⟨a', ha⟩ := ih hrest
    exact ⟨_, .neg ht' ha⟩
  | number ht _ =>
    obtain ⟨t', rest, rfl, ht', hr, hrest⟩ := hus.cons_inv ht
    cases hrest.eq_nil
    have hx : ∃ x, t'.number? = some x := by
      simpa [Token.isOutOfRange, ht', Option.isSome_iff_exists] using hr
    obtain ⟨x, hx⟩ := hx
    exact ⟨_, .number ht' hx⟩
  | named ht =>
    obtain ⟨t', rest, rfl, ht', -, hrest⟩ := hus.cons_inv ht
    cases hrest.eq_nil
    exact ⟨_, .named ht'⟩
  | group hl _ hr ih =>
    obtain ⟨l', rest, rfl, hl', -, hrest⟩ := hus.cons_inv hl
    obtain ⟨inner, rest, rfl, hinner, hrest⟩ := hrest.append_inv
    obtain ⟨r', rest, rfl, hr', -, hrest⟩ := hrest.cons_inv hr
    cases hrest.eq_nil
    obtain ⟨e', h'⟩ := ih hinner
    exact ⟨_, .group hl' h' hr'⟩
  | callNone hf hl hr =>
    obtain ⟨f', rest, rfl, hf', -, hrest⟩ := hus.cons_inv hf
    obtain ⟨l', rest, rfl, hl', -, hrest⟩ := hrest.cons_inv hl
    obtain ⟨r', rest, rfl, hr', -, hrest⟩ := hrest.cons_inv hr
    cases hrest.eq_nil
    exact ⟨_, .callNone hf' hl' hr'⟩
  | callSome hf hl _ hr ih =>
    obtain ⟨f', rest, rfl, hf', -, hrest⟩ := hus.cons_inv hf
    obtain ⟨l', rest, rfl, hl', -, hrest⟩ := hrest.cons_inv hl
    obtain ⟨inner, rest, rfl, hinner, hrest⟩ := hrest.append_inv
    obtain ⟨r', rest, rfl, hr', -, hrest⟩ := hrest.cons_inv hr
    cases hrest.eq_nil
    obtain ⟨args', h'⟩ := ih inner hinner
    exact ⟨_, .callSome hf' hl' h' hr'⟩
  | last _ ih us hus =>
    obtain ⟨a', ha⟩ := ih hus
    exact ⟨_, .last ha⟩
  | more _ ht _ iha ih us hus =>
    obtain ⟨as, rest, rfl, has, hrest⟩ := hus.append_inv
    obtain ⟨t', bs, rfl, ht', -, hbs⟩ := hrest.cons_inv ht
    obtain ⟨a', ha⟩ := iha has
    obtain ⟨rest', hrest⟩ := ih bs hbs
    exact ⟨_, .more ha ht' hrest⟩

/-- A text of the largest double. -/
def largestChars : List Char := "17976931348623157e292".toList

/-- The text of the largest double is its numeral. -/
theorem number?_of_largestChars {t : Token} (h : t.chars = largestChars) :
    t.number? = some .largest := by
  have hread : Numeral.read largestChars = some ⟨17976931348623157, 292⟩ := by
    decide +kernel
  have hdouble : Numeral.toDouble ⟨17976931348623157, 292⟩ false = .finite .largest := by
    decide +kernel
  rw [Token.number?, h, hread]
  simp only [hdouble]

/-- The token, or the largest double in the place of a numeral that is beyond it. The parser takes
one for the other. -/
def clamped (t : Token) : Token :=
  if t.isOutOfRange then ⟨.number, largestChars, t.start⟩ else t

/-- A token keeps its kind when it is brought into range. -/
theorem kind_clamped (t : Token) : (clamped t).kind = t.kind := by
  unfold clamped
  split_ifs with h
  · simp only [Token.isOutOfRange, Bool.and_eq_true, decide_eq_true_eq] at h
    exact h.1.symm
  · rfl

/-- Tokens keep their kinds when they are brought into range. -/
theorem map_kind_clamped (ts : List Token) :
    (ts.map clamped).map Token.kind = ts.map Token.kind := by
  simp [Function.comp_def, kind_clamped]

/-- Tokens that are brought into range are in range. -/
theorem inRange_clamped (ts : List Token) : InRange (ts.map clamped) := by
  intro u hu
  obtain ⟨t, -, rfl⟩ := List.mem_map.mp hu
  unfold clamped
  split_ifs with h
  · simp [Token.isOutOfRange, number?_of_largestChars]
  · simpa using h

/-- The parser takes a token for the one that is brought into range. -/
theorem feed_clamped (s : State) (t : Token) : feed s (clamped t) = feed s t := by
  unfold clamped
  split_ifs with h
  · simp only [Token.isOutOfRange, Bool.and_eq_true, decide_eq_true_eq,
      Option.isNone_iff_eq_none] at h
    obtain ⟨hkind, hnumber⟩ := h
    obtain ⟨fs, focus⟩ := s
    cases focus <;>
      simp [feed, readStart, readAfter, binaryOp?, Token.number, hkind, hnumber,
        number?_of_largestChars]
  · rfl

/-- The parser takes tokens for those that are brought into range. -/
theorem run_clamped {s s' : State} {ts : List Token} :
    run s (ts.map clamped) = .ok s' ↔ run s ts = .ok s' := by
  induction ts generalizing s with
  | nil => rfl
  | cons t ts ih =>
    rw [List.map_cons, run, run, feed_clamped]
    cases feed s t with
    | none => simp
    | some u => exact ih

/-- The parser ends with a tree exactly if the kinds of the tokens are a sentence. -/
theorem sentence_iff {ts : List Token} :
    Sentence (ts.map Token.kind) ↔ ∃ s e, run initial ts = .ok s ∧ finish s = some e := by
  constructor
  · rintro ⟨us, e, hk, h⟩
    have halike : Alike us (ts.map clamped) :=
      ⟨(map_kind_clamped ts).trans hk.symm, inRange_clamped ts⟩
    obtain ⟨e', h'⟩ := h.alike halike
    obtain ⟨s, hrun, hfin⟩ := h'.run_initial
    exact ⟨s, e', run_clamped.mp hrun, hfin⟩
  · rintro ⟨s, e, hrun, hfin⟩
    have h := (run_finish_iff (inRange_clamped ts)).mp ⟨s, run_clamped.mpr hrun, hfin⟩
    exact ⟨ts.map clamped, e, map_kind_clamped ts, h⟩

/-! ## Every state leads to a formula -/

/-- Whether some tokens lead from a state to the end of a formula. -/
def Completes (s : State) : Prop := ∃ us s' e, run s us = .ok s' ∧ finish s' = some e

/-- A state leads to a formula if the one after some token does. -/
theorem Completes.of_feed {s s' : State} {t : Token} (ht : feed s t = some s')
    (h : Completes s') : Completes s := by
  obtain ⟨us, s'', e, hrun, hfin⟩ := h
  exact ⟨t :: us, s'', e, (run_cons ht us).trans hrun, hfin⟩

/-- A numeral with which any formula can start. -/
def numeral : Token := ⟨.number, ['0'], 0⟩

/-- No unary operation is at level zero. -/
theorem one_le_level (op : UnaryOp) : 1 ≤ op.level := by
  cases op <;> decide

/-- After a formula the open frames can be closed one by one, from the innermost outwards. -/
theorem Pending.completes {fs : List Frame} {e : Expr} {s : State} (h : Pending 1 fs e s) :
    Completes s := by
  induction fs generalizing e s with
  | nil =>
    obtain ⟨a, ha, hc⟩ := h
    exact ⟨[], s, e, rfl, finish_of_focusTree ha (hc 1 (Nat.le_refl 1))⟩
  | cons f fs ih =>
    cases f with
    | unary op => exact ih (h.close (one_le_level op))
    | binary op a =>
      have hlevel : 1 ≤ op.level := Nat.le_of_succ_le (level_bounds op).1
      exact ih (h.close hlevel)
    | whenTrue c =>
      have hcolon := h.feed_colon (t := ⟨.colon, [':'], 0⟩) rfl
      have hoperand : Parsing.feed ⟨.whenFalse c e :: fs, .operand⟩ numeral =
          some ⟨.whenFalse c e :: fs, .complete (.literal numeral.number)⟩ := rfl
      have hpending : Pending 1 (.whenFalse c e :: fs) (.literal numeral.number)
          ⟨.whenFalse c e :: fs, .complete (.literal numeral.number)⟩ := .self rfl
      exact .of_feed hcolon (.of_feed hoperand (ih (hpending.close (Nat.le_refl 1))))
    | whenFalse c a => exact ih (h.close (Nat.le_refl 1))
    | group =>
      have hclose := h.feed_group (t := ⟨.rightParen, [')'], 0⟩) rfl
      exact .of_feed hclose (ih (.self rfl))
    | args name done =>
      have hclose := h.feed_args (t := ⟨.rightParen, [')'], 0⟩) rfl
      exact .of_feed hclose (ih (.self rfl))

/-- Some tokens lead from each state to the end of a formula. -/
theorem completes (s : State) : Completes s := by
  obtain ⟨fs, focus⟩ := s
  have hself {focus : Focus} {e : Expr} (h : focusTree? focus = some e) :
      Completes ⟨fs, focus⟩ :=
    (Pending.self h : Pending 1 fs e ⟨fs, focus⟩).completes
  cases focus with
  | operand | firstArg => exact .of_feed (t := numeral) rfl (hself rfl)
  | named name | complete e => exact hself rfl

/-! ## What is read -/

/-- The parser is in some state after the first of the tokens that it takes. -/
theorem exists_run_of_append {s s' : State} {ts us : List Token} (h : run s (ts ++ us) = .ok s') :
    ∃ s₁, run s ts = .ok s₁ := by
  induction ts generalizing s with
  | nil => exact ⟨s, rfl⟩
  | cons t ts ih =>
    rw [List.cons_append, run] at h
    rw [run]
    cases hf : feed s t with
    | none => simp [hf] at h
    | some u =>
      rw [hf] at h
      exact ih h

/-- The parser reads some tokens to their end exactly if a sentence begins with their kinds. -/
theorem exists_run_iff_viable {ts : List Token} : (∃ s, run initial ts = .ok s) ↔ Viable ts := by
  constructor
  · rintro ⟨s, hrun⟩
    obtain ⟨us, s', e, hrun', hfin⟩ := completes s
    have h : Sentence ((ts ++ us).map Token.kind) :=
      sentence_iff.mpr ⟨s', e, (run_append hrun us).trans hrun', hfin⟩
    rw [List.map_append] at h
    exact ⟨_, h⟩
  · rintro ⟨ks, vs, e, hk, h⟩
    obtain ⟨ts', us, rfl, hts, rfl⟩ := List.map_eq_append_iff.mp hk
    -- The tokens that follow in a formula also follow tokens of the same kinds.
    have hsame : Sentence ((ts ++ us).map Token.kind) :=
      ⟨ts' ++ us, e, by rw [List.map_append, List.map_append, hts], h⟩
    obtain ⟨s, a, hrun, -⟩ := sentence_iff.mp hsame
    exact exists_run_of_append hrun

/-- The first token that makes a beginning of a formula one of none is refused. -/
theorem run_eq_error_of_not_viable {before after : List Token} {t : Token} (h : Viable before)
    (ht : ¬ Viable (before ++ [t])) : run initial (before ++ t :: after) = .error t := by
  obtain ⟨s, hrun⟩ := exists_run_iff_viable.mpr h
  rw [run_append hrun, run]
  cases hf : feed s t with
  | none => rfl
  | some u =>
    have hone : run initial (before ++ [t]) = .ok u := by
      rw [run_append hrun, run_cons hf, run]
    exact absurd (exists_run_iff_viable.mp ⟨u, hone⟩) ht

end Grammar

end PayrollFormula
