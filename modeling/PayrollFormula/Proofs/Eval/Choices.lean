import PayrollFormula.Proofs.Eval.Safety

/-!
# One lazy construct

The negation, the two logical operators and the choice function are all choices: `Expr.asChoices`
writes them so at every depth of a formula. The rewritten formula evaluates the same parts in the
same order, and comes out as the formula does in every run (`run_asChoices`).

A rewritten formula may be higher than the formula, but no part of it takes more frames of the
stack: a choice takes one, a logical operation two and a call of the choice function four. So the
formula may run out of frames where the rewritten one does not, and the evaluations are compared by
`Eval.Approximates`.
-/

set_option autoImplicit false

namespace PayrollFormula

open Eval

/-! ## The rewritten formula -/

/-- A choice that tells whether a formula is true. -/
def Expr.truth (a : Expr) : Expr := .choice a (.literal .one) (.literal .zero)

/-- A unary operation, with a negation as a choice. -/
def UnaryOp.asChoice (op : UnaryOp) (a : Expr) : Expr :=
  match op with
  | .not => .choice a (.literal .zero) (.literal .one)
  | .neg => .unary .neg a

/-- A binary operation, with the logical operators as choices. -/
def BinaryOp.asChoice (op : BinaryOp) (a b : Expr) : Expr :=
  match op with
  | .and => .choice a b.truth (.literal .zero)
  | .or => .choice a (.literal .one) b.truth
  | op => .binary op a b

namespace Expr

/-- A call, with one of the choice function on three arguments as a choice. -/
def callAsChoice (name : String) (args : List Expr) : Expr :=
  match args with
  | [c, a, b] => if name = Builtin.choose.name then .choice c a b else .call name [c, a, b]
  | args => .call name args

mutual

/-- A formula with the negations, the logical operators and the calls of the choice function as
choices. -/
def asChoices : Expr → Expr
  | .literal x => .literal x
  | .variable name => .variable name
  | .unary op a => op.asChoice a.asChoices
  | .binary op a b => op.asChoice a.asChoices b.asChoices
  | .choice c a b => .choice c.asChoices a.asChoices b.asChoices
  | .call name args => callAsChoice name (asChoicesAll args)

/-- Several formulas, rewritten one by one. -/
def asChoicesAll : List Expr → List Expr
  | [] => []
  | a :: rest => a.asChoices :: asChoicesAll rest

end

/-- Several formulas are rewritten one by one. -/
theorem asChoicesAll_eq_map (es : List Expr) : asChoicesAll es = es.map asChoices := by
  induction es with
  | nil => rfl
  | cons e es ih => rw [asChoicesAll, ih, List.map_cons]

/-- A call of the choice function with three arguments becomes a choice, and every other call stays.
-/
theorem callAsChoice_cases (name : String) (args : List Expr) :
    (name = Builtin.choose.name ∧ ∃ c a b, args = [c, a, b] ∧
        callAsChoice name args = .choice c a b) ∨
      ((name = Builtin.choose.name → args.length ≠ 3) ∧
        callAsChoice name args = .call name args) := by
  unfold callAsChoice
  split
  · rename_i c a b
    by_cases hname : name = Builtin.choose.name
    · exact .inl ⟨hname, c, a, b, rfl, if_pos hname⟩
    · exact .inr ⟨fun h => absurd h hname, if_neg hname⟩
  · rename_i hargs
    refine .inr ⟨fun _ hlength => ?_, rfl⟩
    obtain ⟨c, a, b, rfl⟩ := List.length_eq_three.mp hlength
    exact hargs c a b rfl

/-- Whether a node is none of those that are rewritten as choices. -/
def IsKept : Expr → Prop
  | .unary op _ => op ≠ .not
  | .binary op _ _ => op ≠ .and ∧ op ≠ .or
  | .call name args => name = Builtin.choose.name → args.length ≠ 3
  | _ => True

/-- Nothing is left to rewrite in the rewritten formula. -/
theorem everywhere_asChoices (e : Expr) : e.asChoices.Everywhere IsKept := by
  induction e using Expr.induction with
  | literal x => simp [asChoices, IsKept]
  | named name => simp [asChoices, IsKept]
  | unary op a iha => cases op <;> simp [asChoices, UnaryOp.asChoice, IsKept, iha]
  | binary op a b iha ihb =>
    cases op <;> simp [asChoices, BinaryOp.asChoice, truth, IsKept, iha, ihb]
  | choice c a b ihc iha ihb => simp [asChoices, IsKept, ihc, iha, ihb]
  | call name args ih =>
    have hargs : ∀ a ∈ args.map asChoices, a.Everywhere IsKept := List.forall_mem_map.mpr ih
    rw [asChoices, asChoicesAll_eq_map]
    obtain ⟨-, c, a, b, heq, hcall⟩ | ⟨hcount, hcall⟩ :=
      callAsChoice_cases name (args.map asChoices)
    · rw [hcall]
      rw [heq] at hargs
      simpa [IsKept] using hargs
    · rw [hcall, everywhere_call]
      exact ⟨hcount, hargs⟩

end Expr

/-! ## Evaluations with fewer frames -/

/-- Whether evaluations run on two stacks of which the second has at least so many frames more
left. -/
structure Stack.Tighter (d : ℕ) (s t : Stack) : Prop where
  left : s.costs = .evaluation
  right : t.costs = .evaluation
  room : s.free + d ≤ t.free

namespace Eval

variable {α β : Type} {s t : Stack}

/-- Whether the first of two evaluations runs out of frames or comes out as the second. -/
def Approximates (x y : Eval α) : Prop := x = fail .tooDeep ∨ x = y

/-- One evaluation after another approximates if both do. -/
theorem lifts_approximates : Lifts Approximates where
  silent := fun _ => .inr rfl
  bind := by
    intro α β x y f g hxy hfg
    obtain rfl | rfl := hxy
    · exact .inl rfl
    · cases x with
      | error err => exact .inr rfl
      | ok p =>
        obtain ⟨a, reads⟩ := p
        obtain hf | hf := hfg a
        · exact .inl (bind_of_ok_error rfl hf)
        · refine .inr ?_
          show Eval.bind _ f = Eval.bind _ g
          simp only [Eval.bind, hf]

/-- An evaluation that takes `m` frames approximates one that takes `n` on a stack with `d` frames
more, if what they go on with does on stacks of which the second still has `d'` frames more. -/
theorem approximates_enter {d d' m n : ℕ} (hst : s.Tighter d t) (hmn : n + d' ≤ m + d)
    {f g : Stack → Eval α} (hfg : ∀ s' t' : Stack, s'.Tighter d' t' → Approximates (f s') (g t')) :
    Approximates (s.enter m f) (t.enter n g) := by
  have hroom := hst.room
  by_cases hm : m ≤ s.free
  · have hn : n ≤ t.free := by omega
    rw [Stack.enter_of_le hm, Stack.enter_of_le hn]
    have hleft : s.free - m + d' ≤ t.free - n := by omega
    exact hfg _ _ ⟨hst.left, hst.right, hleft⟩
  · rw [Stack.enter_of_lt (Nat.not_le.mp hm)]
    exact .inl rfl

/-- The approximation is kept on stacks with as many frames or more. -/
theorem carries_approximates : Carries Approximates (Stack.Tighter 0) := by
  intro cost s t hst α f g hfg
  rw [hst.left, hst.right]
  exact approximates_enter hst le_rfl hfg

/-- A finite value passes the check for it. -/
theorem Ends.bind_finiteOr {P : EvalError → Prop} {x : Eval Double}
    (h : Ends P (·.isFinite = true) x) (err : EvalError) : x >>= finiteOr err = x := by
  cases x with
  | error e => rfl
  | ok p =>
    obtain ⟨a, reads⟩ := p
    have ha : finiteOr err a = .ok (a, []) := if_pos h
    rw [bind_of_ok_ok rfl ha, List.append_nil]

end Eval

namespace Expr

variable {ev : Evaluator} {fs : Fields} {s t : Stack}

/-- With fewer frames an evaluation runs out of them or comes out the same. -/
theorem approximates_eval (ev : Evaluator) (fs : Fields) (e : Expr) (h : s.Tighter 0 t) :
    Approximates (e.eval ev fs s) (e.eval ev fs t) :=
  lifts_approximates.eval_of_alike carries_approximates rfl
    (lifts_approximates.everywhere_alike ev fun _ _ => .inr rfl) h

/-- Without frames no evaluation begins. -/
theorem eval_of_free_eq_zero (hs : s.costs = .evaluation) (h : s.free = 0) (e : Expr) :
    e.eval ev fs s = .error .tooDeep := by
  have hcosts : 0 < s.costs.unary ∧ 0 < s.costs.binary ∧ 0 < s.costs.choice ∧ 0 < s.costs.call := by
    rw [hs]
    decide
  cases e <;> rw [Expr.eval] <;> exact Stack.enter_of_lt (by omega) _

/-- A literal takes one frame. -/
theorem eval_literal {x : Finite} (h : 1 ≤ s.free) :
    (literal x).eval ev fs s = pure (.finite x) := by
  rw [Expr.eval, Stack.enter_of_le h]

/-! ## The evaluation of the rewritten formula -/

/-- Whether the evaluations of a formula approximate those of another with as many frames or
more. -/
def Below (ev : Evaluator) (fs : Fields) (a b : Expr) : Prop :=
  ∀ s t : Stack, s.Tighter 0 t → Approximates (a.eval ev fs s) (b.eval ev fs t)

/-- An evaluation that takes some frames, evaluates a condition and goes on from its value
approximates a choice, if it does so in going on from true values and in going on from false
ones. -/
theorem approximates_choice {c c' a b : Expr} {d m : ℕ} {f : Stack → Double → Eval Double}
    (hst : s.Tighter d t) (hd : 1 ≤ m + d) (hc : Below ev fs c c')
    (ha : ∀ s' t' : Stack, s'.Tighter (m + d - 1) t' → 1 ≤ t'.free →
      ∀ x : Double, x.isTrue = true → Approximates (f s' x) (a.eval ev fs t'))
    (hb : ∀ s' t' : Stack, s'.Tighter (m + d - 1) t' → 1 ≤ t'.free →
      ∀ x : Double, x.isTrue = false → Approximates (f s' x) (b.eval ev fs t')) :
    Approximates (s.enter m fun s => c.eval ev fs s >>= f s) ((choice c' a b).eval ev fs t) := by
  rw [Expr.eval, hst.right]
  have hleft : Frames.evaluation.choice + (m + d - 1) ≤ m + d := Nat.add_sub_of_le hd |>.le
  refine approximates_enter hst hleft fun s' t' hst' => ?_
  have hroom := hst'.room
  by_cases hfree : s'.free = 0
  · exact .inl (bind_of_error (eval_of_free_eq_zero hst'.left hfree c) _)
  · have hone : 1 ≤ t'.free := by omega
    refine lifts_approximates.bind (hc s' t' ⟨hst'.left, hst'.right, by omega⟩) fun x => ?_
    cases hx : x.isTrue with
    | true => simpa [hx] using ha s' t' hst' hone x hx
    | false => simpa [hx] using hb s' t' hst' hone x hx

/-- An operand that is evaluated and replaced by its truth value approximates the choice between one
and zero, if there is a frame more for it. -/
theorem approximates_truth {b b' : Expr} {f : Double → Eval Double} (hst : s.Tighter 1 t)
    (hb : Below ev fs b b') (hf : ∀ x, f x = pure (.ofBool x.isTrue)) :
    Approximates (b.eval ev fs s >>= f) (b'.truth.eval ev fs t) := by
  refine approximates_choice (m := 0) (f := fun _ => f) hst le_rfl hb
    (fun s' t' _ hone x hx => ?_) (fun s' t' _ hone x hx => ?_)
  · rw [hf, hx, eval_literal hone]
    exact .inr rfl
  · rw [hf, hx, eval_literal hone]
    exact .inr rfl

/-- A negation approximates the choice in its place. -/
theorem below_unary {op : UnaryOp} {a a' : Expr} (ha : Below ev fs a a') :
    Below ev fs (unary op a) (op.asChoice a') := by
  intro s t hst
  rw [Expr.eval, hst.left]
  cases op with
  | neg =>
    rw [UnaryOp.asChoice, Expr.eval, hst.right]
    refine approximates_enter hst le_rfl fun s' t' hst' => ?_
    exact lifts_approximates.bind (ha s' t' hst') fun x =>
      lifts_approximates.silent (silent_pure _)
  | not =>
    refine approximates_choice hst le_rfl ha (fun s' t' _ hone x hx => ?_)
      (fun s' t' _ hone x hx => ?_)
    · rw [UnaryOp.apply, hx, eval_literal hone]
      exact .inr rfl
    · rw [UnaryOp.apply, hx, eval_literal hone]
      exact .inr rfl

/-- A logical operation approximates the choices in its place, and any other operation the one on
rewritten operands. -/
theorem below_binary {op : BinaryOp} {a a' b b' : Expr} (ha : Below ev fs a a')
    (hb : Below ev fs b b') : Below ev fs (binary op a b) (op.asChoice a' b') := by
  intro s t hst
  have hkept : Approximates ((binary op a b).eval ev fs s) ((binary op a' b').eval ev fs t) := by
    rw [Expr.eval, Expr.eval]
    refine carries_approximates (·.binary) s t hst fun s' t' hst' => ?_
    refine lifts_approximates.bind (ha s' t' hst') fun x => ?_
    cases op.settled? x with
    | some v => exact lifts_approximates.silent (silent_pure v)
    | none =>
      exact lifts_approximates.bind (hb s' t' hst') fun y =>
        lifts_approximates.silent (op.silent_apply _ x y)
  -- The operation takes the two frames that the two choices in its place take together.
  cases op with
  | and =>
    rw [Expr.eval, hst.left]
    refine approximates_choice hst (by decide) ha (fun s' t' hst' _ x hx => ?_)
      (fun s' t' _ hone x hx => ?_)
    · simp only [BinaryOp.settled?, hx, if_true]
      refine approximates_truth hst' hb fun y => ?_
      rw [BinaryOp.apply, hx, Bool.true_and]
    · simp only [BinaryOp.settled?, hx, Bool.false_eq_true, if_false]
      rw [eval_literal hone]
      exact .inr rfl
  | or =>
    rw [Expr.eval, hst.left]
    refine approximates_choice hst (by decide) ha (fun s' t' _ hone x hx => ?_)
      (fun s' t' hst' _ x hx => ?_)
    · simp only [BinaryOp.settled?, hx, if_true]
      rw [eval_literal hone]
      exact .inr rfl
    · simp only [BinaryOp.settled?, hx, Bool.false_eq_true, if_false]
      refine approximates_truth hst' hb fun y => ?_
      rw [BinaryOp.apply, hx, Bool.false_or]
  | _ => exact hkept

/-- What takes at least a frame, evaluates a condition and goes on with one of two formulas
approximates the choice between formulas that these approximate. -/
theorem approximates_choice_of_below {c c' a a' b b' : Expr} {m : ℕ} (hm : 1 ≤ m)
    (hst : s.Tighter 0 t) (hc : Below ev fs c c') (ha : Below ev fs a a') (hb : Below ev fs b b') :
    Approximates (s.enter m fun s => c.eval ev fs s >>= fun x =>
      if x.isTrue then a.eval ev fs s else b.eval ev fs s) ((choice c' a' b').eval ev fs t) := by
  have htighter {s' t' : Stack} (h : s'.Tighter (m + 0 - 1) t') : s'.Tighter 0 t' :=
    ⟨h.left, h.right, (Nat.le_add_right _ _).trans h.room⟩
  refine approximates_choice hst hm hc (fun s' t' hst' _ x hx => ?_) (fun s' t' hst' _ x hx => ?_)
  · simp only [hx, if_true]
    exact ha s' t' (htighter hst')
  · simp only [hx, Bool.false_eq_true, if_false]
    exact hb s' t' (htighter hst')

/-- The choice function evaluates what the choice does, four frames up: what it gives is finite
already. -/
theorem eval_call_choose (hif : .choose ∈ ev.functions) (hs : s.costs = .evaluation)
    (c a b : Expr) : (call Builtin.choose.name [c, a, b]).eval ev fs s =
      s.enter 4 fun s => c.eval ev fs s >>= fun x =>
        if x.isTrue then a.eval ev fs s else b.eval ev fs s := by
  have hcount : [c, a, b].length = Builtin.choose.arity := rfl
  have hfinite (t : Stack) : Ends (fun _ => True) (·.isFinite = true)
      (t.enter 2 fun s => c.eval ev fs s >>= fun x =>
        if x.isTrue then a.eval ev fs s else b.eval ev fs s) := by
    refine ends_enter (.inl trivial) ((isFinite_eval ev fs c _).bind fun x _ => ?_)
    split_ifs
    · exact isFinite_eval ev fs a _
    · exact isFinite_eval ev fs b _
  rw [← Stack.enter_enter s 2 2, Expr.eval, hs]
  simp only [Builtin.find?_of_mem hif, hcount, ne_eq, not_true_eq_false, if_false]
  refine Stack.enter_congr fun k => ?_
  rw [hs]
  exact (hfinite ⟨.evaluation, k⟩).bind_finiteOr _

/-- A call approximates the call on rewritten arguments, or the choice in its place. -/
theorem below_call (hif : .choose ∈ ev.functions) (name : String) {args args' : List Expr}
    (h : List.Forall₂ (Below ev fs) args args') :
    Below ev fs (call name args) (callAsChoice name args') := by
  intro s t hst
  obtain ⟨rfl, c', a', b', rfl, hcall⟩ | ⟨-, hcall⟩ := callAsChoice_cases name args'
  · obtain _ | ⟨hc, _ | ⟨ha, _ | ⟨hb, _ | _⟩⟩⟩ := h
    rw [hcall, eval_call_choose hif hst.left]
    exact approximates_choice_of_below (by decide) hst hc ha hb
  · rw [hcall]
    exact lifts_approximates.eval_call_of_functions rfl name h.length_eq
      (carries_approximates (·.call) s t hst) (carries_approximates (·.each))
      (carries_approximates (·.asked)) fun s' t' hst' => h.imp fun _ _ ha => ha s' t' hst'

/-- A formula comes out as the rewritten formula does with as many frames or more, or runs out of
them. -/
theorem below_asChoices (hif : .choose ∈ ev.functions) (e : Expr) :
    Below ev fs e e.asChoices := by
  induction e using Expr.induction with
  | literal x => exact fun s t hst => approximates_eval ev fs _ hst
  | named name => exact fun s t hst => approximates_eval ev fs _ hst
  | unary op a iha => exact below_unary iha
  | binary op a b iha ihb => exact below_binary iha ihb
  | choice c a b ihc iha ihb =>
    intro s t hst
    rw [asChoices, Expr.eval, hst.left]
    exact approximates_choice_of_below le_rfl hst ihc iha ihb
  | call name args ih =>
    rw [asChoices, asChoicesAll_eq_map]
    exact below_call hif name (List.forall₂_map_right_iff.mpr (List.forall₂_same.mpr ih))

end Expr

/-! ## Runs -/

namespace Evaluator

/-- An evaluation that runs out of frames is one of a formula whose depth is more than a quarter of
their number. -/
theorem free_lt_of_eval_tooDeep {ev : Evaluator} {fs : Fields} {e : Expr} {k : ℕ}
    (h : e.eval ev fs ⟨.evaluation, k⟩ = .error .tooDeep) : k < 4 * e.depth := by
  have hframes : ¬e.frames .evaluation ≤ k := fun hle => Expr.eval_ne_tooDeep hle h
  have hbound := e.frames_le Frames.within_evaluation
  rw [Expr.depth_eq_height]
  omega

/-- With the choice function at hand a rewritten formula comes out as the formula does in every
run, with the same value and the same variables used or with the same failure, unless the formula
runs out of frames. It can do so only if its depth is more than a quarter of their number. -/
theorem run_asChoices {ev : Evaluator} (hif : .choose ∈ ev.functions) (e : Expr)
    (bindings : Value) :
    e.asChoices.Everywhere Expr.IsKept ∧
      (ev.run (.formula e.asChoices) bindings = ev.run (.formula e) bindings ∨
        ev.run (.formula e) bindings = .error .tooDeep ∧ stack.free < 4 * e.depth) := by
  refine ⟨e.everywhere_asChoices, ?_⟩
  cases hb : bindingsOf bindings with
  | error err =>
    refine .inl ?_
    unfold run
    simp only [hb]
    rfl
  | ok fs =>
    have hbelow : Approximates (e.eval ev fs stack) (e.asChoices.eval ev fs stack) :=
      e.below_asChoices hif stack stack ⟨rfl, rfl, le_rfl⟩
    rw [run_formula hb, run_formula hb]
    unfold evaluate
    obtain hdeep | hsame := hbelow
    · refine .inr ⟨?_, free_lt_of_eval_tooDeep hdeep⟩
      rw [hdeep]
      rfl
    · rw [hsame]
      exact .inl rfl

/-- A conjunction and a negation as the condition of the choice function. Neither form evaluates
the division by zero. -/
theorem run_asChoices_negation :
    .choose ∈ standard.functions ∧
      standard.run (.formula (.choice
          (.choice (.variable "a")
            (.choice (.choice (.variable "b") (.literal .zero) (.literal .one))
              (.literal .one) (.literal .zero))
            (.literal .zero))
          (.variable "a") (.binary .div (.variable "a") (.literal .zero))))
        (.record [("a", .int 3), ("b", .int 0)]) =
      standard.run (.formula (.call "IF"
          [.binary .and (.variable "a") (.unary .not (.variable "b")), .variable "a",
            .binary .div (.variable "a") (.literal .zero)]))
        (.record [("a", .int 3), ("b", .int 0)]) := by
  have hif : .choose ∈ standard.functions := by decide
  refine ⟨hif, ?_⟩
  obtain ⟨-, hsame | ⟨-, hhigh⟩⟩ := run_asChoices hif
    (.call "IF" [.binary .and (.variable "a") (.unary .not (.variable "b")), .variable "a",
      .binary .div (.variable "a") (.literal .zero)])
    (.record [("a", .int 3), ("b", .int 0)])
  · exact hsame
  · rw [Expr.depth_eq_height] at hhigh
    exact absurd hhigh (by decide)

end Evaluator

end PayrollFormula
