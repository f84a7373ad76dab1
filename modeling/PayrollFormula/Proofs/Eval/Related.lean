import Mathlib.Data.List.Forall2
import PayrollFormula.Proofs.Eval.Lifting
import PayrollFormula.Proofs.Number.Signs

/-!
# Two evaluations with one outcome

A relation between values is lifted to evaluations (`Eval.Related`): both end with related values
and have read the same, or both end with the same error. One evaluation after another inherits
this. Operations and functions inherit it from operands that are finite and agree up to the sign of
zero, so a call inherits it from its arguments (`related_eval_call`).
-/

set_option autoImplicit false

namespace PayrollFormula

namespace Eval

variable {α β γ δ : Type}

/-- Whether two evaluations end with related values and have read the same, or end with the same
error. -/
inductive Related (R : α → β → Prop) : Eval α → Eval β → Prop where
  | value {a : α} {b : β} (reads : List String) : R a b → Related R (.ok (a, reads)) (.ok (b, reads))
  | failure (e : EvalError) : Related R (.error e) (.error e)

variable {R : α → β → Prop} {S : γ → δ → Prop}

/-- Results that are related are so as evaluations. -/
theorem related_pure {a : α} {b : β} (h : R a b) : Related R (pure a) (pure b) := .value [] h

/-- The same failure is related to itself. -/
theorem related_fail (e : EvalError) : Related R (fail e) (fail e) := .failure e

/-- Related evaluations stay related if what comes after them is. -/
theorem Related.bind {x : Eval α} {y : Eval β} {f : α → Eval γ} {g : β → Eval δ}
    (h : Related R x y) (hfg : ∀ a b, R a b → Related S (f a) (g b)) :
    Related S (x >>= f) (y >>= g) := by
  cases h with
  | failure e =>
    rw [bind_of_error rfl, bind_of_error rfl]
    exact .failure e
  | @value a b reads hab =>
    have hnext := hfg a b hab
    cases hf : f a with
    | error e =>
      rw [hf] at hnext
      cases hg : g b with
      | ok q =>
        rw [hg] at hnext
        cases hnext
      | error e' =>
        rw [hg] at hnext
        cases hnext
        rw [bind_of_ok_error rfl hf, bind_of_ok_error rfl hg]
        exact .failure e
    | ok p =>
      obtain ⟨c, more⟩ := p
      rw [hf] at hnext
      cases hg : g b with
      | error e' =>
        rw [hg] at hnext
        cases hnext
      | ok q =>
        rw [hg] at hnext
        cases hnext with
        | value _ hcd =>
          rw [bind_of_ok_ok rfl hf, bind_of_ok_ok rfl hg]
          exact .value _ hcd

/-- Two evaluations that take the same frames are related if what they go on with is. -/
theorem related_enter {s : Stack} {n : ℕ} {f : Stack → Eval α} {g : Stack → Eval β}
    (h : Related R (f ⟨s.costs, s.free - n⟩) (g ⟨s.costs, s.free - n⟩)) :
    Related R (s.enter n f) (s.enter n g) := by
  by_cases hn : n ≤ s.free
  · rw [Stack.enter_of_le hn, Stack.enter_of_le hn]
    exact h
  · rw [Stack.enter_of_lt (Nat.not_le.mp hn), Stack.enter_of_lt (Nat.not_le.mp hn)]
    exact related_fail _

/-- The values of several formulas, one after another, are related if they are one by one. -/
theorem related_evalAll {ev : Evaluator} {fs gs : Fields} {s : Stack} {R : Double → Double → Prop}
    {as bs : List Expr}
    (h : List.Forall₂ (fun a b => Related R (a.eval ev fs s) (b.eval ev gs s)) as bs) :
    Related (fun xs ys => xs.length = as.length ∧ List.Forall₂ R xs ys)
      (Expr.evalAll ev fs as s) (Expr.evalAll ev gs bs s) := by
  induction h with
  | nil => exact related_pure ⟨rfl, .nil⟩
  | cons hab _ ih =>
    refine hab.bind fun x y hxy => ih.bind fun xs ys hxys => related_pure ?_
    exact ⟨congrArg (· + 1) hxys.1, .cons hxy hxys.2⟩

end Eval

open Eval

/-- Whether two numbers are finite and agree up to the sign of zero. -/
structure Double.Matches (x y : Double) : Prop where
  isFinite : x.isFinite = true
  agrees : x.Agrees y

/-- A finite number matches itself. -/
theorem Double.Matches.refl {x : Double} (h : x.isFinite = true) : x.Matches x := ⟨h, .refl x⟩

/-- Numbers that agree are both finite or both fail. -/
theorem related_finiteOr (e : EvalError) {x y : Double} (h : x.Agrees y) :
    Related Double.Matches (finiteOr e x) (finiteOr e y) := by
  unfold finiteOr
  rw [← h.isFinite_eq]
  split_ifs with hx
  · exact related_pure ⟨hx, h⟩
  · exact related_fail e

/-- A truth value matches itself. -/
theorem related_ofBool (b : Bool) :
    Related Double.Matches (pure (.ofBool b)) (pure (.ofBool b)) :=
  related_pure (.refl (by cases b <;> rfl))

/-- A variable is looked up as itself. -/
theorem related_lookup (fs : Fields) (name : String) :
    Related Double.Matches (lookup fs name) (lookup fs name) := by
  unfold lookup
  cases fs.get? name with
  | none => exact related_fail _
  | some v =>
    cases hx : v.number? with
    | none =>
      simp only [hx]
      exact related_fail _
    | some x =>
      have hfinite : x.isFinite = true := (Option.filter_eq_some_iff.mp hx).2
      simp only [hx]
      exact .value _ (.refl hfinite)

namespace UnaryOp

/-- A unary operation takes matching numbers to matching ones. -/
theorem related_apply (op : UnaryOp) {x y : Double} (h : x.Matches y) :
    (op.apply x).Matches (op.apply y) := by
  cases op with
  | neg =>
    have hfinite : x.neg.isFinite = true := by
      obtain ⟨hx, -⟩ := h
      cases x with
      | finite => rfl
      | infinite | nan => cases hx
    exact ⟨hfinite, h.agrees.neg⟩
  | not =>
    unfold apply
    rw [h.agrees.isTrue_eq]
    exact .refl (by cases y.isTrue <;> rfl)

end UnaryOp

namespace BinaryOp

/-- Numbers that agree settle the same logical operations. -/
theorem settled?_eq (op : BinaryOp) {x y : Double} (h : x.Agrees y) :
    op.settled? x = op.settled? y := by
  unfold settled?
  rw [h.isTrue_eq]

/-- An operation cannot tell operands apart that agree. -/
theorem related_apply (t : Except NumberError Tolerances) (op : BinaryOp) {x x' y y' : Double}
    (hx : x.Agrees x') (hy : y.Agrees y') :
    Related Double.Matches (op.apply t x y) (op.apply t x' y') := by
  have hcompared (holds : Bool → Bool) :
      Related Double.Matches (comparison t x y holds) (comparison t x' y' holds) := by
    cases t with
    | error e => exact related_fail _
    | ok t =>
      unfold comparison
      simp only [hx.isClose_eq t hy]
      exact related_ofBool _
  have hlt : x.lt y = x'.lt y' := hx.lt_eq hy
  have hgt : y.lt x = y'.lt x' := hy.lt_eq hx
  cases op with
  | add => exact related_finiteOr _ (hx.add hy)
  | sub => exact related_finiteOr _ (hx.sub hy)
  | mul => exact related_finiteOr _ (hx.mul hy)
  | div =>
    unfold apply
    rw [← hy.isZero_eq]
    split_ifs with hzero
    · exact related_fail _
    · exact related_finiteOr _ (hx.div hy (Bool.eq_false_iff.mpr hzero))
  | mod =>
    unfold apply
    rw [← hy.isZero_eq]
    split_ifs
    · exact related_fail _
    · obtain ⟨r, r', hr, hr', hagrees⟩ | ⟨e, he, he'⟩ := hx.remainder hy
      · have hread : Related Double.Agrees (ofExcept .number (x.remainder y))
            (ofExcept .number (x'.remainder y')) := by
          rw [hr, hr']
          exact related_pure hagrees
        exact hread.bind fun _ _ => related_finiteOr _
      · rw [he, he']
        exact related_fail _
  | eq | ne =>
    unfold apply
    exact hcompared _
  | lt | le =>
    unfold apply
    rw [hlt]
    exact hcompared _
  | gt | ge =>
    unfold apply
    rw [hgt]
    exact hcompared _
  | and | or =>
    unfold apply
    rw [hx.isTrue_eq, hy.isTrue_eq]
    exact related_ofBool _

end BinaryOp

namespace Builtin

/-- Numbers that agree are rounded to numbers that agree, or are refused alike. -/
theorem related_roundTo {x x' p p' : Double} (hx : x.Agrees x') (hp : p.Agrees p') :
    Related Double.Agrees (ofExcept .ofFailure (roundTo x p))
      (ofExcept .ofFailure (roundTo x' p')) := by
  have hsame (z : Except Failure Double) :
      Related Double.Agrees (ofExcept .ofFailure z) (ofExcept .ofFailure z) := by
    cases z with
    | ok r => exact related_pure (.refl r)
    | error e => exact related_fail _
  have hplaces (z : Double) : roundTo z p = roundTo z p' := by
    obtain rfl | ⟨s, t, rfl, rfl⟩ := hp.cases
    · rfl
    · have hwhole : (Finite.zeroOf s).isWhole = (Finite.zeroOf t).isWhole := rfl
      unfold roundTo
      simp only [hwhole, Finite.floor_zeroOf]
  rw [hplaces]
  obtain rfl | ⟨s, t, rfl, rfl⟩ := hx.cases
  · exact hsame _
  · cases p' with
    | infinite | nan => exact related_fail _
    | finite p =>
      unfold roundTo
      by_cases hwhole : p.isWhole = true
      · by_cases hrange : maxPlaces < p.floor.natAbs
        · simp only [if_pos hwhole, if_pos hrange]
          exact related_fail _
        · simp only [if_pos hwhole, if_neg hrange]
          rw [Finite.toPlaces_zeroOf, Finite.toPlaces_zeroOf]
          exact related_pure (Double.agrees_zeroOf s t)
      · simp only [if_neg hwhole]
        exact related_fail _

/-- A function cannot tell arguments apart that agree. -/
theorem related_apply {f : Builtin} {xs ys : List Double} (hcount : xs.length = f.arity)
    (h : List.Forall₂ Double.Agrees xs ys) :
    Related Double.Agrees (ofExcept .ofFailure (f.apply xs)) (ofExcept .ofFailure (f.apply ys)) := by
  have hwhole {i j : Except NumberError ℤ} (hij : i = j) :
      Related Double.Agrees (ofExcept .ofFailure (whole i)) (ofExcept .ofFailure (whole j)) := by
    rw [hij]
    cases whole j with
    | ok r => exact related_pure (.refl r)
    | error e => exact related_fail _
  match f, h with
  | .min, .cons hx (.cons hy .nil) =>
    simp only [apply, hy.lt_eq hx]
    split_ifs
    · exact related_pure hy
    · exact related_pure hx
  | .max, .cons hx (.cons hy .nil) =>
    simp only [apply, hx.lt_eq hy]
    split_ifs
    · exact related_pure hy
    · exact related_pure hx
  | .round, .cons hx (.cons hp .nil) =>
    simp only [apply]
    exact related_roundTo hx hp
  | .floor, .cons hx .nil => exact hwhole hx.floor_eq
  | .ceil, .cons hx .nil => exact hwhole hx.ceil_eq
  | .abs, .cons hx .nil =>
    simp only [apply, hx.abs_eq]
    exact related_pure (.refl _)
  | .choose, .cons hc (.cons hx (.cons hy .nil)) =>
    simp only [apply, hc.isTrue_eq]
    split_ifs
    · exact related_pure hx
    · exact related_pure hy

end Builtin

/-- The results of one function on all of its arguments are related if the arguments are one by
one. -/
theorem related_apply_evalAll {ev : Evaluator} {fs gs : Fields} {s : Stack} {n : ℕ} {f : Builtin}
    {as bs : List Expr} (name : String) (hcount : as.length = f.arity)
    (h : List.Forall₂ (fun a b => Related Double.Matches (a.eval ev fs ⟨s.costs, s.free - n⟩)
      (b.eval ev gs ⟨s.costs, s.free - n⟩)) as bs) :
    Related Double.Matches
      (s.enter n (Expr.evalAll ev fs as) >>= fun xs =>
        ofExcept .ofFailure (f.apply xs) >>= finiteOr (.notFinite name))
      (s.enter n (Expr.evalAll ev gs bs) >>= fun ys =>
        ofExcept .ofFailure (f.apply ys) >>= finiteOr (.notFinite name)) := by
  refine (related_enter (related_evalAll h)).bind fun xs ys hxys => ?_
  have hagrees := hxys.2.imp fun _ _ hxy => hxy.agrees
  exact (Builtin.related_apply (hxys.1.trans hcount) hagrees).bind fun x y => related_finiteOr _

/-- Calls of one function are related if their arguments are one by one, wherever on the stack they
are evaluated. -/
theorem related_eval_call {ev : Evaluator} {fs gs : Fields} {s : Stack} (name : String)
    {as bs : List Expr} (hlength : as.length = bs.length)
    (h : ∀ n, n ≤ max s.costs.each s.costs.asked →
      List.Forall₂ (fun a b => Related Double.Matches
        (a.eval ev fs ⟨s.costs, s.free - s.costs.call - n⟩)
        (b.eval ev gs ⟨s.costs, s.free - s.costs.call - n⟩)) as bs) :
    Related Double.Matches ((Expr.call name as).eval ev fs s) ((Expr.call name bs).eval ev gs s) := by
  simp only [Expr.eval]
  refine related_enter ?_
  cases Builtin.find? ev.functions name with
  | none => exact related_fail _
  | some f =>
    by_cases hcount : as.length = f.arity
    · simp only [← hlength, hcount, ne_eq, not_true_eq_false, if_false]
      cases f with
      | choose =>
        obtain ⟨c, a, b, rfl⟩ := List.length_eq_three.mp hcount
        obtain ⟨c', a', b', rfl⟩ := List.length_eq_three.mp (hlength.symm.trans hcount)
        -- Only here are the arguments not evaluated one after another.
        obtain _ | ⟨hc, _ | ⟨ha, _ | ⟨hb, _ | _⟩⟩⟩ := h s.costs.asked (Nat.le_max_right _ _)
        refine (related_enter ?_).bind fun x y (hxy : x.Matches y) => related_finiteOr _ hxy.agrees
        refine hc.bind fun x y hxy => ?_
        rw [hxy.agrees.isTrue_eq]
        split_ifs
        · exact ha
        · exact hb
      | min | max | round | floor | ceil | abs =>
        exact related_apply_evalAll name hcount (h s.costs.each (Nat.le_max_left _ _))
    · simp only [← hlength, ne_eq, hcount, not_false_eq_true, if_true]
      exact related_fail _

end PayrollFormula
