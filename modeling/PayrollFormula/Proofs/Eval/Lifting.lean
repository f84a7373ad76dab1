import Mathlib.Data.List.Forall2
import PayrollFormula.Eval.Evaluator
import PayrollFormula.Proofs.Formula.Trees

/-!
# Evaluation step by step

An evaluation looks at its bindings only where it reads a variable; all else that it does is the
same under all bindings and reads nothing. So a relation between evaluations that holds wherever
nothing is read, and that one evaluation after another inherits, holds between the evaluations of
a formula under two bindings if it holds between the readings of its variables (`Lifts.eval`). The
two evaluations may run on different stacks, if the relation is kept when both take frames
(`Carries`).
-/

set_option autoImplicit false

namespace PayrollFormula

namespace Eval

variable {α β : Type}

/-! ## One evaluation after another -/

/-- What comes after a failure does not matter. -/
theorem bind_of_error {x : Eval α} {e : EvalError} (h : x = .error e) (f : α → Eval β) :
    x >>= f = .error e := by
  rw [h]
  rfl

/-- A failure of what comes after a value is that of both. -/
theorem bind_of_ok_error {x : Eval α} {a : α} {r : List String} {e : EvalError} {f : α → Eval β}
    (h : x = .ok (a, r)) (hf : f a = .error e) : x >>= f = .error e := by
  show Eval.bind x f = .error e
  unfold Eval.bind
  rw [h]
  simp only [hf]
  rfl

/-- After a success the evaluation succeeds if what comes next does, and has read what both have
read. -/
theorem bind_of_ok_ok {x : Eval α} {a : α} {b : β} {r s : List String} {f : α → Eval β}
    (h : x = .ok (a, r)) (hf : f a = .ok (b, s)) : x >>= f = .ok (b, r ++ s) := by
  show Eval.bind x f = .ok (b, r ++ s)
  unfold Eval.bind
  rw [h]
  simp only [hf]
  rfl

/-- An evaluation that succeeds has parts that do. -/
theorem exists_of_bind_eq_ok {x : Eval α} {f : α → Eval β} {b : β} {reads : List String}
    (h : x >>= f = .ok (b, reads)) :
    ∃ a r s, x = .ok (a, r) ∧ f a = .ok (b, s) ∧ reads = r ++ s := by
  cases hx : x with
  | error e =>
    rw [bind_of_error hx] at h
    cases h
  | ok p =>
    obtain ⟨a, r⟩ := p
    cases hf : f a with
    | error e =>
      rw [bind_of_ok_error hx hf] at h
      cases h
    | ok q =>
      obtain ⟨b', s⟩ := q
      rw [bind_of_ok_ok hx hf] at h
      cases h
      exact ⟨a, r, s, rfl, hf, rfl⟩

/-! ## Evaluations that read nothing -/

/-- Whether an evaluation reads nothing if it succeeds. -/
def Silent (x : Eval α) : Prop := ∀ a reads, x = .ok (a, reads) → reads = []

/-- A result reads nothing. -/
theorem silent_pure (a : α) : Silent (pure a) := by
  intro b reads h
  cases h
  rfl

/-- A failure reads nothing. -/
theorem silent_fail (e : EvalError) : Silent (fail e : Eval α) := by
  intro b reads h
  cases h

/-- Two evaluations that read nothing do so one after another. -/
theorem Silent.bind {x : Eval α} {f : α → Eval β} (hx : Silent x) (hf : ∀ a, Silent (f a)) :
    Silent (x >>= f) := by
  intro b reads h
  obtain ⟨a, r, s, hx', hf', rfl⟩ := exists_of_bind_eq_ok h
  rw [hx a r hx', hf a b s hf', List.append_nil]

/-- Checking a number reads nothing. -/
theorem silent_finiteOr (e : EvalError) (x : Double) : Silent (finiteOr e x) := by
  unfold finiteOr
  split_ifs
  · exact silent_pure x
  · exact silent_fail e

/-- A computation reads nothing. -/
theorem silent_ofExcept {ε : Type} (toError : ε → EvalError) (x : Except ε α) :
    Silent (ofExcept toError x) := by
  cases x with
  | ok a => exact silent_pure a
  | error e => exact silent_fail (toError e)

end Eval

open Eval

/-- Comparing two numbers reads nothing. -/
theorem silent_comparison (t : Except NumberError Tolerances) (x y : Double)
    (holds : Bool → Bool) : Silent (comparison t x y holds) := by
  cases t with
  | ok t => exact silent_pure _
  | error e => exact silent_fail _

/-- An operation on two numbers reads nothing. -/
theorem BinaryOp.silent_apply (t : Except NumberError Tolerances) (op : BinaryOp) (x y : Double) :
    Silent (op.apply t x y) := by
  cases op with
  | add | sub | mul => exact silent_finiteOr _ _
  | div =>
    unfold BinaryOp.apply
    split_ifs
    · exact silent_fail _
    · exact silent_finiteOr _ _
  | mod =>
    unfold BinaryOp.apply
    split_ifs
    · exact silent_fail _
    · exact (silent_ofExcept _ _).bind fun _ => silent_finiteOr _ _
  | eq | ne | lt | le | gt | ge =>
    unfold BinaryOp.apply
    exact silent_comparison t x y _
  | and | or => exact silent_pure _

/-- The value that settles a logical operation is a number. -/
theorem BinaryOp.isFinite_of_settled? {op : BinaryOp} {x v : Double}
    (h : op.settled? x = some v) : v.isFinite = true := by
  cases op with
  | and =>
    unfold settled? at h
    split_ifs at h
    cases h
    rfl
  | or =>
    unfold settled? at h
    split_ifs at h
    cases h
    rfl
  | _ => cases h

/-! ## Frames of the stack -/

namespace Stack

variable {α : Type} {s : Stack} {n : ℕ}

/-- Where there are frames enough, an evaluation goes on with so many less. -/
theorem enter_of_le (h : n ≤ s.free) (f : Stack → Eval α) :
    s.enter n f = f ⟨s.costs, s.free - n⟩ := if_pos h

/-- Where there are too few frames, an evaluation fails. -/
theorem enter_of_lt (h : s.free < n) (f : Stack → Eval α) : s.enter n f = fail .tooDeep :=
  if_neg (Nat.not_le.mpr h)

/-- An evaluation goes on with the same costs of nodes. -/
theorem enter_congr {f g : Stack → Eval α} (h : ∀ k, f ⟨s.costs, k⟩ = g ⟨s.costs, k⟩) :
    s.enter n f = s.enter n g := by
  rw [enter, enter, h]

/-- Frames that are taken one after another may as well be taken at once. -/
theorem enter_enter (s : Stack) (m n : ℕ) (f : Stack → Eval α) :
    (s.enter m fun s => s.enter n f) = s.enter (m + n) f := by
  by_cases hm : m ≤ s.free
  · rw [enter_of_le hm]
    by_cases hn : n ≤ s.free - m
    · rw [enter_of_le hn, enter_of_le (by omega), Nat.sub_sub]
    · rw [enter_of_lt (Nat.not_le.mp hn), enter_of_lt (by omega)]
  · rw [enter_of_lt (Nat.not_le.mp hm), enter_of_lt (by omega)]

end Stack

/-! ## Two evaluations side by side -/

/-- A relation between evaluations that holds wherever nothing is read, and that one evaluation
after another inherits. -/
structure Lifts (R : ∀ {α : Type}, Eval α → Eval α → Prop) : Prop where
  silent : ∀ {α : Type} {x : Eval α}, Silent x → R x x
  bind : ∀ {α β : Type} {x y : Eval α} {f g : α → Eval β},
    R x y → (∀ a, R (f a) (g a)) → R (x >>= f) (y >>= g)

/-- Whether a relation between evaluations is kept when they take frames on two stacks: it holds
between two that start by taking what a kind of node costs if it holds between what they go on with,
on whatever stacks stand in a relation `S`. -/
def Enters (R : ∀ {α : Type}, Eval α → Eval α → Prop) (S : Stack → Stack → Prop)
    (cost : Frames → ℕ) (s t : Stack) : Prop :=
  ∀ {α : Type} {f g : Stack → Eval α}, (∀ s' t', S s' t' → R (f s') (g t')) →
    R (s.enter (cost s.costs) f) (t.enter (cost t.costs) g)

/-- Whether a relation holds between what two evaluations do at a node, its parts aside: only the
readings of variables depend on the bindings, and only operations on the tolerances. -/
def Alike (R : ∀ {α : Type}, Eval α → Eval α → Prop) (ev ev' : Evaluator) (fs gs : Fields) :
    Expr → Prop
  | .variable name => R (lookup fs name) (lookup gs name)
  | .binary op _ _ => ∀ x y, R (op.apply ev.tolerances x y) (op.apply ev'.tolerances x y)
  | _ => True

/-- Whether a relation between evaluations is kept on all stacks that stand in a relation `S`, which
they still do after any kind of node has taken its frames. -/
def Carries (R : ∀ {α : Type}, Eval α → Eval α → Prop) (S : Stack → Stack → Prop) : Prop :=
  ∀ cost s t, S s t → Enters R S cost s t

namespace Lifts

variable {R : ∀ {α : Type}, Eval α → Eval α → Prop} {S S' : Stack → Stack → Prop}

/-- Every relation is kept on one and the same stack. -/
theorem carries_eq (h : Lifts R) : Carries R Eq := by
  rintro cost s _ rfl α f g hfg
  by_cases hn : cost s.costs ≤ s.free
  · rw [Stack.enter_of_le hn, Stack.enter_of_le hn]
    exact hfg _ _ rfl
  · rw [Stack.enter_of_lt (Nat.not_le.mp hn), Stack.enter_of_lt (Nat.not_le.mp hn)]
    exact h.silent (silent_fail _)

/-- The values of several formulas, one after another, are related if they are one by one. -/
theorem evalAll (h : Lifts R) {ev ev' : Evaluator} {fs gs : Fields} {as bs : List Expr}
    {s t : Stack} (hargs : List.Forall₂ (fun a b => R (a.eval ev fs s) (b.eval ev' gs t)) as bs) :
    R (Expr.evalAll ev fs as s) (Expr.evalAll ev' gs bs t) := by
  induction hargs with
  | nil => exact h.silent (silent_pure _)
  | cons hab _ ih => exact h.bind hab fun x => h.bind ih fun xs => h.silent (silent_pure _)

/-- The evaluations of two calls of one function are related if those of their arguments are one by
one, each on its own stack, under its own bindings and with its own tolerances. -/
theorem eval_call_of_functions (h : Lifts R) {ev ev' : Evaluator}
    (hfunctions : ev'.functions = ev.functions) {fs gs : Fields} {s t : Stack} (name : String)
    {as bs : List Expr} (hlength : as.length = bs.length)
    (hcall : Enters R S (·.call) s t) (heach : ∀ s t, S s t → Enters R S' (·.each) s t)
    (hasked : ∀ s t, S s t → Enters R S' (·.asked) s t)
    (hargs : ∀ s t, S' s t →
      List.Forall₂ (fun a b => R (a.eval ev fs s) (b.eval ev' gs t)) as bs) :
    R ((Expr.call name as).eval ev fs s) ((Expr.call name bs).eval ev' gs t) := by
  have hfinite (value : Double) :
      R (finiteOr (.notFinite name) value) (finiteOr (.notFinite name) value) :=
    h.silent (silent_finiteOr _ value)
  simp only [Expr.eval, hfunctions]
  refine hcall fun s t hst => ?_
  cases Builtin.find? ev.functions name with
  | none => exact h.silent (silent_fail _)
  | some f =>
    by_cases hcount : as.length = f.arity
    · simp only [← hlength, hcount, ne_eq, not_true_eq_false, if_false]
      have hall : R (s.enter s.costs.each (Expr.evalAll ev fs as) >>= fun xs =>
            ofExcept .ofFailure (f.apply xs) >>= finiteOr (.notFinite name))
          (t.enter t.costs.each (Expr.evalAll ev' gs bs) >>= fun xs =>
            ofExcept .ofFailure (f.apply xs) >>= finiteOr (.notFinite name)) :=
        h.bind (heach s t hst fun s t hst => h.evalAll (hargs s t hst)) fun xs =>
          h.bind (h.silent (silent_ofExcept _ _)) hfinite
      -- The choice function evaluates the argument that it takes, every other one all of them.
      cases f with
      | choose =>
        obtain ⟨c, a, b, rfl⟩ := List.length_eq_three.mp hcount
        obtain ⟨c', a', b', rfl⟩ := List.length_eq_three.mp (hlength.symm.trans hcount)
        refine h.bind (hasked s t hst fun s t hst => ?_) hfinite
        obtain _ | ⟨hc, _ | ⟨ha, _ | ⟨hb, _ | _⟩⟩⟩ := hargs s t hst
        refine h.bind hc fun x => ?_
        split_ifs
        · exact ha
        · exact hb
      | min | max | round | floor | ceil | abs => exact hall
    · simp only [← hlength, ne_eq, hcount, not_false_eq_true, if_true]
      exact h.silent (silent_fail _)

/-- Evaluations of a formula on stacks that keep the relation are related if the relation holds at
each of its nodes. -/
theorem eval_of_alike (h : Lifts R) (hS : Carries R S) {ev ev' : Evaluator}
    (hfunctions : ev'.functions = ev.functions) {fs gs : Fields} {e : Expr}
    (he : e.Everywhere (Alike R ev ev' fs gs)) {s t : Stack} (hst : S s t) :
    R (e.eval ev fs s) (e.eval ev' gs t) := by
  induction e using Expr.induction generalizing s t with
  | literal x =>
    rw [Expr.eval, Expr.eval]
    exact hS (fun _ => 1) s t hst fun _ _ _ => h.silent (silent_pure _)
  | named name =>
    rw [Expr.eval, Expr.eval]
    exact hS (fun _ => 1) s t hst fun _ _ _ => (Expr.everywhere_variable _ name).mp he
  | unary op a iha =>
    obtain ⟨-, ha⟩ := (Expr.everywhere_unary _ op a).mp he
    rw [Expr.eval, Expr.eval]
    refine hS (·.unary) s t hst fun s t hst => ?_
    exact h.bind (iha ha hst) fun x => h.silent (silent_pure _)
  | binary op a b iha ihb =>
    obtain ⟨hop, ha, hb⟩ := (Expr.everywhere_binary _ op a b).mp he
    rw [Expr.eval, Expr.eval]
    refine hS (·.binary) s t hst fun s t hst => h.bind (iha ha hst) fun x => ?_
    cases op.settled? x with
    | some v => exact h.silent (silent_pure v)
    | none => exact h.bind (ihb hb hst) fun y => hop x y
  | choice c a b ihc iha ihb =>
    obtain ⟨-, hc, ha, hb⟩ := (Expr.everywhere_choice _ c a b).mp he
    rw [Expr.eval, Expr.eval]
    refine hS (·.choice) s t hst fun s t hst => h.bind (ihc hc hst) fun x => ?_
    split_ifs
    · exact iha ha hst
    · exact ihb hb hst
  | call name args ih =>
    obtain ⟨-, hargs⟩ := (Expr.everywhere_call _ name args).mp he
    exact h.eval_call_of_functions hfunctions name rfl (hS (·.call) s t hst) (hS (·.each))
      (hS (·.asked)) fun s t hst =>
        List.forall₂_same.mpr fun a ha => ih a ha (hargs a ha) hst

/-- At every node but the variables one evaluator does the same under all bindings. -/
theorem everywhere_alike (h : Lifts R) (ev : Evaluator) {fs gs : Fields} {e : Expr}
    (hlookup : ∀ name, .variable name ∈ e.nodes → R (lookup fs name) (lookup gs name)) :
    e.Everywhere (Alike R ev ev fs gs) := by
  intro n hn
  cases n with
  | «variable» name => exact hlookup name hn
  | binary op a b => exact fun x y => h.silent (op.silent_apply _ x y)
  | literal | unary | choice | call => trivial

/-- The evaluations of a formula under two bindings are related if the readings of its variables
are. -/
theorem eval (h : Lifts R) (ev : Evaluator) (fs gs : Fields) {e : Expr}
    (hlookup : ∀ name, .variable name ∈ e.nodes → R (lookup fs name) (lookup gs name)) (s : Stack) :
    R (e.eval ev fs s) (e.eval ev gs s) :=
  h.eval_of_alike h.carries_eq rfl (h.everywhere_alike ev hlookup) rfl

end Lifts

end PayrollFormula
