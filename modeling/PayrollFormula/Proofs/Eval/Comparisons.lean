import PayrollFormula.Proofs.Eval.Choices
import PayrollFormula.Proofs.Number.Closeness

/-!
# Comparisons of formulas

Whatever the tolerances are, the comparisons of two formulas that both have a value are consistent:
of less, equal and greater exactly one holds, each of the six comparisons says which, and the other
way round they say the same (`run_comparisons`). Formulas that are equal stay equal when the
tolerances are raised, unless this changes the value of one of them, which it can do only through
comparisons inside it (`raised_tolerance_separates`).
-/

set_option autoImplicit false

namespace PayrollFormula

open Eval

namespace BinaryOp

/-- Whether an operator compares its operands. -/
def isComparison : BinaryOp → Bool
  | .eq | .ne | .lt | .le | .gt | .ge => true
  | _ => false

/-- Whether a comparison holds between two numbers. -/
def holds (t : Tolerances) (op : BinaryOp) (x y : Double) : Bool :=
  match op with
  | .eq => isClose t x y
  | .ne => !isClose t x y
  | .lt => x.lt y && !isClose t x y
  | .le => x.lt y || isClose t x y
  | .gt => y.lt x && !isClose t x y
  | .ge => y.lt x || isClose t x y
  | _ => false

/-- The value of a comparison says whether it holds. -/
theorem apply_of_isComparison {op : BinaryOp} (h : op.isComparison = true) (t : Tolerances)
    (x y : Double) : op.apply (.ok t) x y = pure (.ofBool (op.holds t x y)) := by
  cases op <;> first | rfl | cases h

/-- No comparison is settled by its left operand. -/
theorem settled?_of_isComparison {op : BinaryOp} (h : op.isComparison = true) (x : Double) :
    op.settled? x = none := by
  cases op <;> first | rfl | cases h

/-- The tolerances matter to comparisons alone. -/
theorem apply_of_not_isComparison {op : BinaryOp} (h : op.isComparison = false)
    (t t' : Except NumberError Tolerances) (x y : Double) : op.apply t x y = op.apply t' x y := by
  cases op <;> first | rfl | cases h

end BinaryOp

namespace Expr

variable {ev : Evaluator} {fs : Fields} {s : Stack} {t : Tolerances} {op : BinaryOp} {a b : Expr}
  {x y : Double} {rs ss : List String}

/-! ## The evaluation of a comparison -/

/-- A comparison of two formulas with values has its truth value. -/
theorem eval_comparison (ht : ev.tolerances = .ok t) (hop : op.isComparison = true)
    (hroom : s.costs.binary ≤ s.free)
    (ha : a.eval ev fs ⟨s.costs, s.free - s.costs.binary⟩ = .ok (x, rs))
    (hb : b.eval ev fs ⟨s.costs, s.free - s.costs.binary⟩ = .ok (y, ss)) :
    (binary op a b).eval ev fs s = .ok (.ofBool (op.holds t x y), rs ++ ss) := by
  have happly : op.apply ev.tolerances x y = .ok (.ofBool (op.holds t x y), []) := by
    rw [ht, BinaryOp.apply_of_isComparison hop]
    rfl
  have hright := bind_of_ok_ok hb happly
  rw [List.append_nil] at hright
  rw [Expr.eval, Stack.enter_of_le hroom]
  refine bind_of_ok_ok ha ?_
  rw [BinaryOp.settled?_of_isComparison hop]
  exact hright

/-- A comparison runs out of frames if its left operand does, or its right one after a value of the
left one. -/
theorem eval_comparison_tooDeep (hop : op.isComparison = true) (hroom : s.costs.binary ≤ s.free)
    (h : a.eval ev fs ⟨s.costs, s.free - s.costs.binary⟩ = .error .tooDeep ∨
      (∃ x rs, a.eval ev fs ⟨s.costs, s.free - s.costs.binary⟩ = .ok (x, rs)) ∧
        b.eval ev fs ⟨s.costs, s.free - s.costs.binary⟩ = .error .tooDeep) :
    (binary op a b).eval ev fs s = .error .tooDeep := by
  rw [Expr.eval, Stack.enter_of_le hroom]
  rcases h with ha | ⟨⟨x, rs, ha⟩, hb⟩
  · exact bind_of_error ha _
  · refine bind_of_ok_error ha ?_
    rw [BinaryOp.settled?_of_isComparison hop]
    exact bind_of_error hb _

/-! ## Formulas without comparisons -/

/-- Whether a node is no comparison. -/
def IsUncompared : Expr → Prop
  | .binary op _ _ => op.isComparison = false
  | _ => True

/-- What comes out the same does so one evaluation after another. -/
theorem lifts_eq : Lifts fun {α : Type} (x y : Eval α) => x = y where
  silent := fun _ => rfl
  bind := by
    intro α β x y f g hxy hfg
    rw [hxy, funext hfg]

/-- A formula without comparisons evaluates the same whatever the tolerances are. -/
theorem eval_eq_of_uncompared {ev' : Evaluator} (hfunctions : ev'.functions = ev.functions)
    {e : Expr} (he : e.Everywhere IsUncompared) : e.eval ev fs s = e.eval ev' fs s := by
  refine lifts_eq.eval_of_alike lifts_eq.carries_eq hfunctions (he.mono fun n hn => ?_) rfl
  cases n with
  | binary op a b => exact fun x y => BinaryOp.apply_of_not_isComparison hn _ _ x y
  | «variable» name => exact rfl
  | literal | unary | choice | call => trivial

end Expr

namespace Evaluator

/-! ## Runs -/

/-- Whether the comparison of two formulas comes out as a truth value. -/
def Tells (ev : Evaluator) (bindings : Value) (op : BinaryOp) (a b : Expr) (truth : Bool) : Prop :=
  ∃ used, ev.run (.formula (.binary op a b)) bindings = .ok ⟨.ofBool truth, used⟩

/-- The comparisons of two formulas when one of three relations holds between them. -/
structure Consistent (ev : Evaluator) (bindings : Value) (a b : Expr)
    (less close greater : Bool) : Prop where
  one : [less, close, greater].count true = 1
  lt : ev.Tells bindings .lt a b less
  eq : ev.Tells bindings .eq a b close
  gt : ev.Tells bindings .gt a b greater
  ne : ev.Tells bindings .ne a b !close
  le : ev.Tells bindings .le a b !greater
  ge : ev.Tells bindings .ge a b !less
  eq_swap : ev.Tells bindings .eq b a close
  gt_swap : ev.Tells bindings .gt b a less
  lt_swap : ev.Tells bindings .lt b a greater

/-- Whether a run descends too far, so that it runs out of frames. -/
def DescendsTooFar (ev : Evaluator) (bindings : Value) (e : Expr) : Prop :=
  ev.run (.formula e) bindings = .error .tooDeep

section Runs

variable {ev : Evaluator} {bindings : Value} {fs : Fields} {a b : Expr} {u v : Outcome}

/-- A formula that has a value under bindings is evaluated under their fields. -/
theorem exists_of_run_eq_ok {e : Expr} (h : ev.run (.formula e) bindings = .ok u) :
    ∃ fs reads, bindingsOf bindings = .ok fs ∧ e.eval ev fs stack = .ok (u.value, reads) := by
  cases hb : bindingsOf bindings with
  | error err =>
    unfold run at h
    simp only [hb] at h
    cases h
  | ok fs =>
    rw [run_formula hb, evaluate] at h
    cases heval : e.eval ev fs stack with
    | error err =>
      rw [heval] at h
      cases h
    | ok p =>
      rw [heval] at h
      cases h
      exact ⟨fs, p.2, rfl, heval⟩

/-- A formula has the value of its evaluation, and the variables that were read for it. -/
theorem run_of_eval_eq_ok {e : Expr} {x : Double} {reads : List String}
    (hb : bindingsOf bindings = .ok fs) (h : e.eval ev fs stack = .ok (x, reads)) :
    ev.run (.formula e) bindings = .ok ⟨x, firstOccurrences reads⟩ := by
  rw [run_formula hb, evaluate, h]

/-- A formula fails with the error of its evaluation. -/
theorem run_of_eval_eq_error {e : Expr} {err : EvalError} (hb : bindingsOf bindings = .ok fs)
    (h : e.eval ev fs stack = .error err) : ev.run (.formula e) bindings = .error err := by
  rw [run_formula hb, evaluate, h]

/-- The stack that is left for the operands of a comparison. -/
def operandStack : Stack := ⟨stack.costs, stack.free - stack.costs.binary⟩

/-- A formula with a value has the same value as an operand of a comparison, or it runs out of the
frames that are left there, which it can do only if its depth is more than a quarter of their
number. -/
theorem eval_operand (hb : bindingsOf bindings = .ok fs) (h : ev.run (.formula a) bindings = .ok u) :
    (∃ reads, a.eval ev fs operandStack = .ok (u.value, reads)) ∨
      a.eval ev fs operandStack = .error .tooDeep ∧ operandStack.free < 4 * a.depth := by
  obtain ⟨fs', reads, hb', heval⟩ := exists_of_run_eq_ok h
  obtain rfl : fs' = fs := Except.ok.inj (hb'.symm.trans hb)
  have htighter : operandStack.Tighter 0 stack := ⟨rfl, rfl, by decide⟩
  rcases a.approximates_eval ev fs' htighter with hdeep | hsame
  · exact .inr ⟨hdeep, free_lt_of_eval_tooDeep hdeep⟩
  · exact .inl ⟨reads, hsame.trans heval⟩

/-- The comparisons of two formulas with values come out alike: all of them compare these values,
or all of them run out of frames. -/
theorem tells_or_descendsTooFar {t : Tolerances} (ht : ev.tolerances = .ok t)
    (ha : ev.run (.formula a) bindings = .ok u) (hb : ev.run (.formula b) bindings = .ok v) :
    (∀ op : BinaryOp, op.isComparison = true →
        ev.Tells bindings op a b (op.holds t u.value v.value) ∧
          ev.Tells bindings op b a (op.holds t v.value u.value)) ∨
      operandStack.free < 4 * max a.depth b.depth ∧ ∀ op : BinaryOp, op.isComparison = true →
        ev.DescendsTooFar bindings (.binary op a b) ∧
          ev.DescendsTooFar bindings (.binary op b a) := by
  obtain ⟨fs, -, hfs, -⟩ := exists_of_run_eq_ok ha
  have hdeep {op : BinaryOp} {c d : Expr} (hop : op.isComparison = true)
      (h : c.eval ev fs operandStack = .error .tooDeep ∨
        (∃ x rs, c.eval ev fs operandStack = .ok (x, rs)) ∧
          d.eval ev fs operandStack = .error .tooDeep) :
      ev.DescendsTooFar bindings (.binary op c d) :=
    run_of_eval_eq_error hfs (Expr.eval_comparison_tooDeep hop (by decide) h)
  rcases eval_operand hfs ha with ⟨rs, ha⟩ | ⟨ha, hhigh⟩
  · rcases eval_operand hfs hb with ⟨ss, hb⟩ | ⟨hb, hhigh⟩
    · exact .inl fun op hop =>
        ⟨⟨_, run_of_eval_eq_ok hfs (Expr.eval_comparison ht hop (by decide) ha hb)⟩,
          ⟨_, run_of_eval_eq_ok hfs (Expr.eval_comparison ht hop (by decide) hb ha)⟩⟩
    · have hhigher := hhigh.trans_le (Nat.mul_le_mul_left 4 (Nat.le_max_right a.depth b.depth))
      refine .inr ⟨hhigher, fun op hop => ⟨?_, ?_⟩⟩
      · exact hdeep hop (.inr ⟨⟨_, rs, ha⟩, hb⟩)
      · exact hdeep hop (.inl hb)
  · have hhigher := hhigh.trans_le (Nat.mul_le_mul_left 4 (Nat.le_max_left a.depth b.depth))
    refine .inr ⟨hhigher, fun op hop => ⟨hdeep hop (.inl ha), ?_⟩⟩
    rcases eval_operand hfs hb with ⟨ss, hb⟩ | ⟨hb, -⟩
    · exact hdeep hop (.inr ⟨⟨_, ss, hb⟩, ha⟩)
    · exact hdeep hop (.inl hb)

/-- The value of a formula is a finite number. -/
theorem exists_finite_of_run_eq_ok (h : ev.run (.formula a) bindings = .ok u) :
    ∃ x, u.value = .finite x := by
  obtain ⟨fs, reads, -, heval⟩ := exists_of_run_eq_ok h
  have hends := a.isFinite_eval ev fs stack
  rw [heval] at hends
  exact Double.exists_of_isFinite hends

end Runs

/-- Whether a formula has the same value when other tolerances are used: it has no comparisons, or
that is what comes out. -/
def Keeps (ev ev' : Evaluator) (bindings : Value) (e : Expr) : Prop :=
  e.Everywhere Expr.IsUncompared ∨
    ∃ u u', ev.run (.formula e) bindings = .ok u ∧ ev'.run (.formula e) bindings = .ok u' ∧
      u'.value = u.value

/-- A formula that keeps its value has it with the other evaluator too. -/
theorem Keeps.exists_run {ev ev' : Evaluator} {bindings : Value} {e : Expr} {u : Outcome}
    (h : Keeps ev ev' bindings e) (hfunctions : ev'.functions = ev.functions)
    (hu : ev.run (.formula e) bindings = .ok u) :
    ∃ u', ev'.run (.formula e) bindings = .ok u' ∧ u'.value = u.value := by
  rcases h with huncompared | ⟨w, u', hw, hu', hvalue⟩
  · obtain ⟨fs, reads, hfs, heval⟩ := exists_of_run_eq_ok hu
    rw [Expr.eval_eq_of_uncompared hfunctions huncompared] at heval
    exact ⟨_, run_of_eval_eq_ok hfs heval, rfl⟩
  · obtain rfl := Except.ok.inj (hw.symm.trans hu)
    exact ⟨u', hu', hvalue⟩

section Told

variable {ev : Evaluator} {bindings : Value} {a b : Expr} {t : Tolerances} {x y : Finite}

/-- Comparisons that all compare the same two numbers are consistent. -/
theorem consistent_of_tells
    (h : ∀ op : BinaryOp, op.isComparison = true →
      ev.Tells bindings op a b (op.holds t (.finite x) (.finite y)) ∧
        ev.Tells bindings op b a (op.holds t (.finite y) (.finite x))) :
    ∃ less close greater, ev.Consistent bindings a b less close greater := by
  have hle := lt_or_isClose t x y
  have hge := lt_or_isClose t y x
  rw [isClose_comm] at hge
  refine ⟨_, _, _, count_relations t x y, (h .lt rfl).1, (h .eq rfl).1, (h .gt rfl).1,
    (h .ne rfl).1, ?_, ?_, ?_, ?_, ?_⟩
  · rw [← hle]
    exact (h .le rfl).1
  · rw [← hge]
    exact (h .ge rfl).1
  · rw [isClose_comm]
    exact (h .eq rfl).2
  · rw [isClose_comm]
    exact (h .gt rfl).2
  · rw [isClose_comm]
    exact (h .lt rfl).2

/-- A comparison comes out in one way only. -/
theorem Tells.unique {op : BinaryOp} {p q : Bool} (hp : ev.Tells bindings op a b p)
    (hq : ev.Tells bindings op a b q) : p = q := by
  obtain ⟨used, hused⟩ := hp
  obtain ⟨used', hused'⟩ := hq
  have hvalue : Double.ofBool p = Double.ofBool q :=
    congrArg Outcome.value (Except.ok.inj (hused.symm.trans hused'))
  revert hvalue
  cases p <;> cases q <;> decide

/-- A comparison that fails tells nothing. -/
theorem DescendsTooFar.not_tells {op : BinaryOp} {p : Bool}
    (h : ev.DescendsTooFar bindings (.binary op a b)) : ¬ev.Tells bindings op a b p := by
  rintro ⟨used, hused⟩
  have hsame := h.symm.trans hused
  cases hsame

end Told

/-- Two formulas that both have values are compared consistently under all tolerances: of less,
equal and greater exactly one holds, and the six comparisons of the formulas, in either order, say
which. Where the formulas are equal, they are so under greater tolerances too, provided that these
do not change the values of the formulas, which can only happen through comparisons inside. The one
thing that can go wrong is that a comparison runs out of frames, if the depth of one of the formulas
is more than a quarter of those that are left for it; then all comparisons of the two do. -/
theorem run_comparisons {t : Tolerances} {functions : List Builtin} {a b : Expr} {bindings : Value}
    {u v : Outcome} (ha : run ⟨.ok t, functions⟩ (.formula a) bindings = .ok u)
    (hb : run ⟨.ok t, functions⟩ (.formula b) bindings = .ok v) :
    ((∃ less close greater,
        Consistent ⟨.ok t, functions⟩ bindings a b less close greater) ∨
      operandStack.free < 4 * max a.depth b.depth ∧ ∀ op : BinaryOp, op.isComparison = true →
        DescendsTooFar ⟨.ok t, functions⟩ bindings (.binary op a b) ∧
          DescendsTooFar ⟨.ok t, functions⟩ bindings (.binary op b a)) ∧
    ∀ t' : Tolerances, t.relative.le t'.relative = true → t.absolute.le t'.absolute = true →
      Keeps ⟨.ok t, functions⟩ ⟨.ok t', functions⟩ bindings a →
      Keeps ⟨.ok t, functions⟩ ⟨.ok t', functions⟩ bindings b →
      Tells ⟨.ok t, functions⟩ bindings .eq a b true →
      Tells ⟨.ok t', functions⟩ bindings .eq a b true ∨
        operandStack.free < 4 * max a.depth b.depth ∧
          DescendsTooFar ⟨.ok t', functions⟩ bindings (.binary .eq a b) := by
  obtain ⟨x, hx⟩ := exists_finite_of_run_eq_ok ha
  obtain ⟨y, hy⟩ := exists_finite_of_run_eq_ok hb
  have halike := tells_or_descendsTooFar rfl ha hb
  rw [hx, hy] at halike
  constructor
  · exact halike.imp_left consistent_of_tells
  · intro t' hrelative habsolute hkeepa hkeepb htrue
    have hclose : isClose t (.finite x) (.finite y) = true := by
      rcases halike with htells | hdeep
      · exact (htells .eq rfl).1.unique htrue
      · exact absurd htrue (hdeep.2 .eq rfl).1.not_tells
    have hclose' := isClose_mono hrelative habsolute hclose
    obtain ⟨u', ha', hu'⟩ := hkeepa.exists_run rfl ha
    obtain ⟨v', hb', hv'⟩ := hkeepb.exists_run rfl hb
    have halike' := tells_or_descendsTooFar (t := t') rfl ha' hb'
    rw [hu', hv', hx, hy] at halike'
    refine halike'.imp (fun htells' => ?_) fun hdeep => ⟨hdeep.1, (hdeep.2 .eq rfl).1⟩
    have htell := (htells' .eq rfl).1
    rw [BinaryOp.holds, hclose'] at htell
    exact htell

end Evaluator

/-- One and a half. -/
def Finite.oneAndHalf : Finite := ⟨false, 1023 * Rank.binade + Rank.binade / 2, by decide⟩

/-- An absolute tolerance of one half. -/
def Tolerances.half : Tolerances :=
  { standard with
    absolute := .finite ⟨false, 1022 * Rank.binade, by decide⟩
    absolute_nonneg := Double.belowZero_eq_false rfl }

namespace Evaluator

/-- A difference is compared with one, first up to a thousand-millionth and then up to one half. -/
theorem run_comparisons_difference :
    standard.run (.formula (.binary .sub (.variable "net") (.variable "due")))
        (.record [("net", .int 3), ("due", .int 2)]) = .ok ⟨.one, ["net", "due"]⟩ ∧
      standard.run (.formula (.literal .one)) (.record [("net", .int 3), ("due", .int 2)]) =
        .ok ⟨.one, []⟩ ∧
      (∃ less close greater, standard.Consistent (.record [("net", .int 3), ("due", .int 2)])
        (.binary .sub (.variable "net") (.variable "due")) (.literal .one) less close greater) ∧
      Tells ⟨.ok .half, Builtin.all⟩ (.record [("net", .int 3), ("due", .int 2)]) .eq
        (.binary .sub (.variable "net") (.variable "due")) (.literal .one) true := by
  have ha : standard.run (.formula (.binary .sub (.variable "net") (.variable "due")))
      (.record [("net", .int 3), ("due", .int 2)]) = .ok ⟨.one, ["net", "due"]⟩ := by
    decide +kernel
  have hb : standard.run (.formula (.literal .one))
      (.record [("net", .int 3), ("due", .int 2)]) = .ok ⟨.one, []⟩ := by
    decide +kernel
  have hlow : ¬operandStack.free < 4 * max (Expr.binary .sub (.variable "net") (.variable "due")).depth
      (Expr.literal .one).depth := by
    rw [Expr.depth_eq_height, Expr.depth_eq_height]
    decide
  obtain ⟨hconsistent, hraised⟩ := run_comparisons ha hb
  refine ⟨ha, hb, hconsistent.resolve_right fun h => hlow h.1, ?_⟩
  refine (hraised .half (by decide +kernel) (by decide +kernel) (.inl ?_) (.inl ?_)
    ⟨["net", "due"], by decide +kernel⟩).resolve_right fun h => hlow h.1
  · simp [Expr.IsUncompared, BinaryOp.isComparison]
  · simp [Expr.IsUncompared]

/-- Greater tolerances may take apart what was equal, if they change the value of one side: one and
one and a half are not equal, and zero is the value of their comparison, until they are equal up to
one half, and one is the value. -/
theorem raised_tolerance_separates :
    Tolerances.standard.relative.le Tolerances.half.relative = true ∧
      Tolerances.standard.absolute.le Tolerances.half.absolute = true ∧
      standard.run (.formula (.binary .eq (.literal .one) (.literal .oneAndHalf))) .null =
        .ok ⟨.zero, []⟩ ∧
      standard.run (.formula (.literal .zero)) .null = .ok ⟨.zero, []⟩ ∧
      standard.Tells .null .eq (.binary .eq (.literal .one) (.literal .oneAndHalf)) (.literal .zero)
        true ∧
      Tells ⟨.ok .half, Builtin.all⟩ .null .eq
        (.binary .eq (.literal .one) (.literal .oneAndHalf)) (.literal .zero) false := by
  refine ⟨by decide +kernel, by decide +kernel, by decide +kernel, by decide +kernel, ⟨[], ?_⟩,
    ⟨[], ?_⟩⟩
  · decide +kernel
  · decide +kernel

end Evaluator

end PayrollFormula
