import Mathlib.Data.List.Basic
import PayrollFormula.Eval.Evaluator
import PayrollFormula.Proofs.Eval.Dependency
import PayrollFormula.Proofs.Formula.Frames
import PayrollFormula.Proofs.Number.Places
import PayrollFormula.Proofs.Number.Whole

/-!
# How evaluations end

An evaluation ends with a finite number or with an error. Finite operands leave each operation and
each function only few errors, which are listed in `EvalError.IsNumeric`; what else may go wrong is
decided at the variables and calls of a formula and by the frames that it takes
(`Expr.ends_eval`).
-/

set_option autoImplicit false

namespace PayrollFormula

namespace Eval

variable {α β : Type}

/-- Whether an evaluation ends with a value that has the property `Q` or with an error that has
the property `P`. -/
def Ends (P : EvalError → Prop) (Q : α → Prop) : Eval α → Prop
  | .ok (a, _) => Q a
  | .error e => P e

variable {P : EvalError → Prop} {Q : α → Prop} {R : β → Prop}

/-- A result ends as the property of values says. -/
theorem ends_pure {a : α} (h : Q a) : Ends P Q (pure a) := h

/-- A failure ends as the property of errors says. -/
theorem ends_fail {e : EvalError} (h : P e) : Ends P Q (fail e : Eval α) := h

/-- The property of errors may be replaced by a weaker one. -/
theorem Ends.mono {P' : EvalError → Prop} {x : Eval α} (hx : Ends P Q x)
    (h : ∀ err, P err → P' err) : Ends P' Q x := by
  cases x with
  | error err => exact h err hx
  | ok p => exact hx

/-- One evaluation after another ends as the second does after every value that the first may have. -/
theorem Ends.bind {x : Eval α} {f : α → Eval β} (hx : Ends P Q x)
    (hf : ∀ a, Q a → Ends P R (f a)) : Ends P R (x >>= f) := by
  cases h : x with
  | error e =>
    rw [h] at hx
    rw [bind_of_error rfl]
    exact hx
  | ok p =>
    obtain ⟨a, r⟩ := p
    rw [h] at hx
    have ha := hf a hx
    cases hfa : f a with
    | error e =>
      rw [hfa] at ha
      rw [bind_of_ok_error rfl hfa]
      exact ha
    | ok q =>
      obtain ⟨b, s⟩ := q
      rw [hfa] at ha
      rw [bind_of_ok_ok rfl hfa]
      exact ha

/-- An evaluation that takes frames ends as what it goes on with does, unless they are too many. -/
theorem ends_enter {s : Stack} {n : ℕ} {f : Stack → Eval α} (hdeep : P .tooDeep ∨ n ≤ s.free)
    (hf : Ends P Q (f ⟨s.costs, s.free - n⟩)) : Ends P Q (s.enter n f) := by
  by_cases hn : n ≤ s.free
  · rw [Stack.enter_of_le hn]
    exact hf
  · rw [Stack.enter_of_lt (Nat.not_le.mp hn)]
    exact ends_fail (hdeep.resolve_right hn)

/-- The evaluations of several formulas, one after another, end with their values if each of them
ends with a value of its own. -/
theorem ends_evalAll {ev : Evaluator} {fs : Fields} {s : Stack} {R : Double → Prop}
    {as : List Expr} (h : ∀ a ∈ as, Ends P R (a.eval ev fs s)) :
    Ends P (fun xs => xs.length = as.length ∧ ∀ x ∈ xs, R x) (Expr.evalAll ev fs as s) := by
  induction as with
  | nil => exact ends_pure ⟨rfl, List.forall_mem_nil R⟩
  | cons a as ih =>
    obtain ⟨ha, has⟩ := List.forall_mem_cons.mp h
    refine ha.bind fun x hx => (ih has).bind fun xs hxs => ends_pure ?_
    exact ⟨congrArg (· + 1) hxs.1, List.forall_mem_cons.mpr ⟨hx, hxs.2⟩⟩

/-- A checked number is finite, or gives the error. -/
theorem ends_finiteOr {e : EvalError} (h : P e) (x : Double) :
    Ends P (·.isFinite = true) (finiteOr e x) := by
  unfold finiteOr
  split_ifs with hx
  · exact ends_pure hx
  · exact ends_fail h

/-- A computation that succeeds ends as its result does. -/
theorem ends_ofExcept_ok {ε : Type} {toError : ε → EvalError} {x : Except ε α} {a : α}
    (hx : x = .ok a) (h : Q a) : Ends P Q (ofExcept toError x) := by
  rw [hx]
  exact h

/-- A computation that fails ends as its error does. -/
theorem ends_ofExcept_error {ε : Type} {toError : ε → EvalError} {x : Except ε α} {e : ε}
    (hx : x = .error e) (h : P (toError e)) : Ends P Q (ofExcept toError x) := by
  rw [hx]
  exact h

end Eval

open Eval

namespace Double

/-- A finite double is a finite number. -/
theorem exists_of_isFinite {x : Double} (h : x.isFinite = true) : ∃ y, x = .finite y := by
  cases x with
  | finite y => exact ⟨y, rfl⟩
  | infinite | nan => cases h

/-- A truth value is finite. -/
theorem isFinite_ofBool (b : Bool) : (ofBool b).isFinite = true := by
  cases b <;> rfl

/-- The negation of a finite number is finite. -/
theorem isFinite_neg {x : Double} (h : x.isFinite = true) : x.neg.isFinite = true := by
  obtain ⟨y, rfl⟩ := exists_of_isFinite h
  rfl

/-- Of finite numbers there is a remainder unless the divisor is zero. -/
theorem exists_remainder {x y : Double} (hx : x.isFinite = true) (hy : y.isFinite = true)
    (hzero : ¬y.isZero = true) : ∃ r, x.remainder y = .ok r := by
  obtain ⟨x, rfl⟩ := exists_of_isFinite hx
  obtain ⟨y, rfl⟩ := exists_of_isFinite hy
  have hrank : y.rank ≠ 0 := by simpa [isZero] using hzero
  rw [remainder, if_neg hrank]
  exact ⟨_, rfl⟩

end Double

/-! ## Operations and functions of finite numbers -/

/-- The errors that operations and functions give for finite operands: the divisor is zero, the
result is too large, or a number is to be rounded to decimal places that are not whole or too
many. -/
def EvalError.IsNumeric : EvalError → Prop
  | .divisionByZero op => op ∈ [BinaryOp.div, .mod]
  | .overflow op => op ∈ [BinaryOp.add, .sub, .mul, .div, .mod]
  | .call e => e ∈ [CallError.placesNotWhole, .placesOutOfRange]
  | _ => False

namespace UnaryOp

/-- A unary operation on a finite number gives a finite one. -/
theorem isFinite_apply (op : UnaryOp) {x : Double} (h : x.isFinite = true) :
    (op.apply x).isFinite = true := by
  cases op with
  | neg => exact Double.isFinite_neg h
  | not => exact Double.isFinite_ofBool _

end UnaryOp

namespace BinaryOp

/-- An operation on finite numbers gives a finite number or one of the numeric errors, or it finds
the tolerances unusable. -/
theorem ends_apply {P : EvalError → Prop} (hnumeric : ∀ err, err.IsNumeric → P err)
    {t : Except NumberError Tolerances} (ht : ∀ err, t = .error err → P (.number err))
    (op : BinaryOp) {x y : Double} (hx : x.isFinite = true) (hy : y.isFinite = true) :
    Ends P (·.isFinite = true) (op.apply t x y) := by
  have hcompared (holds : Bool → Bool) : Ends P (·.isFinite = true) (comparison t x y holds) := by
    cases t with
    | ok t => exact ends_pure (Double.isFinite_ofBool _)
    | error err => exact ends_fail (ht err rfl)
  cases op with
  | add | sub | mul =>
    unfold apply
    exact ends_finiteOr (hnumeric _ (by simp [EvalError.IsNumeric])) _
  | div =>
    unfold apply
    split_ifs
    · exact ends_fail (hnumeric _ (by simp [EvalError.IsNumeric]))
    · exact ends_finiteOr (hnumeric _ (by simp [EvalError.IsNumeric])) _
  | mod =>
    unfold apply
    split_ifs with hzero
    · exact ends_fail (hnumeric _ (by simp [EvalError.IsNumeric]))
    · obtain ⟨r, hr⟩ := Double.exists_remainder hx hy hzero
      have hdone : Ends P (fun _ => True) (ofExcept .number (x.remainder y)) :=
        ends_ofExcept_ok hr trivial
      exact hdone.bind fun r _ => ends_finiteOr (hnumeric _ (by simp [EvalError.IsNumeric])) r
  | eq | ne | lt | le | gt | ge =>
    unfold apply
    exact hcompared _
  | and | or => exact ends_pure (Double.isFinite_ofBool _)

end BinaryOp

namespace Builtin

/-- Functions are told apart by their names. -/
theorem name_injective : Function.Injective name := by
  intro f g h
  revert h
  cases f <;> cases g <;> decide

/-- A table finds each of its functions by its name. -/
theorem find?_of_mem {table : List Builtin} {f : Builtin} (h : f ∈ table) :
    find? table f.name = some f := by
  cases hf : find? table f.name with
  | none =>
    have hnone := List.find?_eq_none.mp hf f h
    simp at hnone
  | some g =>
    have hname : g.name = f.name := by simpa using List.find?_some hf
    rw [name_injective hname]

/-- A number is rounded to whole places within the range, and all others are refused. -/
theorem roundTo_finite (x p : Finite) :
    (∃ y, roundTo (.finite x) (.finite p) = .ok (.finite y)) ∨
      roundTo (.finite x) (.finite p) = .error (.call .placesNotWhole) ∨
      roundTo (.finite x) (.finite p) = .error (.call .placesOutOfRange) := by
  by_cases h : ∃ places, p.IsPlaces places
  · obtain ⟨places, hplaces⟩ := h
    exact .inl ⟨_, roundTo_of_isPlaces x hplaces⟩
  · rw [roundTo_of_not_isPlaces (.finite x) (not_exists.mp h)]
    split_ifs
    · exact .inr (.inr rfl)
    · exact .inr (.inl rfl)

/-- A function of as many finite numbers as it takes gives a finite number or one of the numeric
errors. -/
theorem ends_apply {f : Builtin} {xs : List Double} (hcount : xs.length = f.arity)
    (hxs : ∀ x ∈ xs, x.isFinite = true) :
    Ends EvalError.IsNumeric (·.isFinite = true) (.ofExcept .ofFailure (f.apply xs)) := by
  cases f with
  | min =>
    obtain ⟨x, y, rfl⟩ := List.length_eq_two.mp hcount
    refine ends_ofExcept_ok rfl ?_
    split_ifs
    · exact hxs y (by simp)
    · exact hxs x (by simp)
  | max =>
    obtain ⟨x, y, rfl⟩ := List.length_eq_two.mp hcount
    refine ends_ofExcept_ok rfl ?_
    split_ifs
    · exact hxs y (by simp)
    · exact hxs x (by simp)
  | round =>
    obtain ⟨x, p, rfl⟩ := List.length_eq_two.mp hcount
    obtain ⟨x, rfl⟩ := Double.exists_of_isFinite (hxs x (by simp))
    obtain ⟨p, rfl⟩ := Double.exists_of_isFinite (hxs p (by simp))
    obtain ⟨y, h⟩ | h | h := roundTo_finite x p
    · exact ends_ofExcept_ok h rfl
    · exact ends_ofExcept_error h (by simp [EvalError.IsNumeric, EvalError.ofFailure])
    · exact ends_ofExcept_error h (by simp [EvalError.IsNumeric, EvalError.ofFailure])
  | floor =>
    obtain ⟨x, rfl⟩ := List.length_eq_one_iff.mp hcount
    obtain ⟨x, rfl⟩ := Double.exists_of_isFinite (hxs x (by simp))
    obtain ⟨y, hy⟩ := exists_whole_floor x
    exact ends_ofExcept_ok hy rfl
  | ceil =>
    obtain ⟨x, rfl⟩ := List.length_eq_one_iff.mp hcount
    obtain ⟨x, rfl⟩ := Double.exists_of_isFinite (hxs x (by simp))
    obtain ⟨y, hy⟩ := exists_whole_ceil x
    exact ends_ofExcept_ok hy rfl
  | abs =>
    obtain ⟨x, rfl⟩ := List.length_eq_one_iff.mp hcount
    obtain ⟨x, rfl⟩ := Double.exists_of_isFinite (hxs x (by simp))
    exact ends_ofExcept_ok rfl rfl
  | choose =>
    obtain ⟨c, x, y, rfl⟩ := List.length_eq_three.mp hcount
    refine ends_ofExcept_ok rfl ?_
    split_ifs
    · exact hxs x (by simp)
    · exact hxs y (by simp)

end Builtin

/-! ## Formulas -/

/-- Looking a variable up gives a finite number, or one of the two errors about variables. -/
theorem ends_lookup {P : EvalError → Prop} {fs : Fields} {name : String}
    (hunknown : P (.unknownVariable name (sortTexts fs.names)))
    (hinvalid : ∀ typeName, P (.invalidVariable name typeName)) :
    Ends P (·.isFinite = true) (lookup fs name) := by
  unfold lookup
  cases hv : fs.get? name with
  | none => exact ends_fail hunknown
  | some v =>
    cases hx : v.number? with
    | none =>
      simp only [hx]
      exact ends_fail (hinvalid v.typeName)
    | some x =>
      have hfinite : x.isFinite = true := (Option.filter_eq_some_iff.mp hx).2
      simp only [hx]
      exact hfinite

namespace Expr

/-- Whether a node, its parts aside, gives an evaluation no errors but those with the property
`P`. Only the values of variables and the refusals of calls depend on the node. -/
def Confined (P : EvalError → Prop) (functions : List Builtin) (fs : Fields) : Expr → Prop
  | .variable name => Ends P (·.isFinite = true) (lookup fs name)
  | .call name args =>
    match Builtin.find? functions name with
    | none => P (.call (.unknown name))
    | some f => args.length ≠ f.arity → P (.call (.arity f args.length))
  | _ => True

variable {P : EvalError → Prop} {ev : Evaluator} {fs : Fields} {s : Stack}

/-- A call ends as its arguments do if it is not refused, wherever on the stack they are evaluated. -/
theorem ends_eval_call (hnumeric : ∀ err, err.IsNumeric → P err) {name : String} {args : List Expr}
    (hcall : (call name args).Confined P ev.functions fs)
    (hdeep : P .tooDeep ∨ s.costs.call + max s.costs.each s.costs.asked ≤ s.free)
    (hargs : ∀ n, n ≤ max s.costs.each s.costs.asked → ∀ a ∈ args,
      Ends P (·.isFinite = true) (a.eval ev fs ⟨s.costs, s.free - s.costs.call - n⟩)) :
    Ends P (·.isFinite = true) ((call name args).eval ev fs s) := by
  -- A finite value is never refused for not being finite.
  have hfinite (x : Double) (hx : x.isFinite = true) :
      Ends P (·.isFinite = true) (finiteOr (.notFinite name) x) := by
    rw [finiteOr, if_pos hx]
    exact ends_pure hx
  have hroom {n : ℕ} (hn : n ≤ max s.costs.each s.costs.asked) :
      P .tooDeep ∨ n ≤ s.free - s.costs.call :=
    hdeep.imp_right fun h => by omega
  rw [Confined] at hcall
  simp only [Expr.eval]
  refine ends_enter (hdeep.imp_right fun h => by omega) ?_
  cases hf : Builtin.find? ev.functions name with
  | none =>
    rw [hf] at hcall
    exact ends_fail hcall
  | some f =>
    rw [hf] at hcall
    by_cases hcount : args.length = f.arity
    · simp only [hcount, ne_eq, not_true_eq_false, if_false]
      split
      · have hasked := hargs s.costs.asked (Nat.le_max_right _ _)
        refine (ends_enter (hroom (Nat.le_max_right _ _)) ?_).bind hfinite
        refine (hasked _ (by simp)).bind fun x _ => ?_
        split_ifs
        · exact hasked _ (by simp)
        · exact hasked _ (by simp)
      · have heach := hargs s.costs.each (Nat.le_max_left _ _)
        refine (ends_enter (hroom (Nat.le_max_left _ _)) (ends_evalAll heach)).bind fun xs hxs => ?_
        have hvalue := Builtin.ends_apply (hxs.1.trans hcount) hxs.2
        exact (hvalue.mono hnumeric).bind hfinite
    · simp only [ne_eq, hcount, not_false_eq_true, if_true]
      exact ends_fail (hcall hcount)

/-- An evaluation ends with a finite number or with an error that has the property `P`, if numeric
errors have it, the nodes of the formula give no others, the tolerances are usable or that error
has the property as well, and likewise for running out of frames. -/
theorem ends_eval_of_tolerances
    (ht : ∀ err, ev.tolerances = .error err → P (.number err))
    (hnumeric : ∀ err, err.IsNumeric → P err) {e : Expr}
    (hdeep : P .tooDeep ∨ e.frames s.costs ≤ s.free)
    (he : e.Everywhere (Confined P ev.functions fs)) :
    Ends P (·.isFinite = true) (e.eval ev fs s) := by
  -- Each part is evaluated with so many frames less as the node takes above it.
  induction e using Expr.induction generalizing s with
  | literal x =>
    rw [Expr.eval]
    exact ends_enter hdeep (ends_pure rfl)
  | named name =>
    rw [Expr.eval]
    exact ends_enter hdeep ((everywhere_variable _ name).mp he)
  | unary op a iha =>
    obtain ⟨-, ha⟩ := (everywhere_unary _ op a).mp he
    rw [frames] at hdeep
    rw [Expr.eval]
    refine ends_enter (hdeep.imp_right fun h => by omega) ?_
    refine (iha (hdeep.imp_right fun h => ?_) ha).bind fun x hx => ends_pure (op.isFinite_apply hx)
    exact Nat.le_sub_of_add_le' h
  | binary op a b iha ihb =>
    obtain ⟨-, ha, hb⟩ := (everywhere_binary _ op a b).mp he
    rw [frames] at hdeep
    rw [Expr.eval]
    refine ends_enter (hdeep.imp_right fun h => by omega) ?_
    refine (iha (hdeep.imp_right fun h => ?_) ha).bind fun x hx => ?_
    · show a.frames s.costs ≤ s.free - s.costs.binary
      omega
    · cases hv : op.settled? x with
      | some v => exact ends_pure (BinaryOp.isFinite_of_settled? hv)
      | none =>
        refine (ihb (hdeep.imp_right fun h => ?_) hb).bind fun y hy =>
          BinaryOp.ends_apply hnumeric ht op hx hy
        show b.frames s.costs ≤ s.free - s.costs.binary
        omega
  | choice c a b ihc iha ihb =>
    obtain ⟨-, hc, ha, hb⟩ := (everywhere_choice _ c a b).mp he
    rw [frames] at hdeep
    have hpart {p : Expr}
        (hp : p.frames s.costs ≤ max (c.frames s.costs) (max (a.frames s.costs) (b.frames s.costs))) :
        P .tooDeep ∨ p.frames s.costs ≤ s.free - s.costs.choice :=
      hdeep.imp_right fun h => by omega
    rw [Expr.eval]
    refine ends_enter (hdeep.imp_right fun h => by omega) ?_
    refine (ihc (hpart (by simp)) hc).bind fun x _ => ?_
    split_ifs
    · exact iha (hpart (by simp)) ha
    · exact ihb (hpart (by simp)) hb
  | call name args ih =>
    obtain ⟨hcall, hargs⟩ := (everywhere_call _ name args).mp he
    rw [frames] at hdeep
    refine ends_eval_call hnumeric hcall (hdeep.imp_right fun h => by omega) fun n hn a ha => ?_
    refine ih a ha (hdeep.imp_right fun h => ?_) (hargs a ha)
    have hle := frames_le_greatestFrames (c := s.costs) ha
    show a.frames s.costs ≤ s.free - s.costs.call - n
    omega

/-- An evaluation with usable tolerances ends with a finite number or with an error that has the
property `P`, if numeric errors have it, the nodes of the formula give no others, and there are
frames enough or running out of them has the property as well. -/
theorem ends_eval {t : Tolerances} (ht : ev.tolerances = .ok t)
    (hnumeric : ∀ err, err.IsNumeric → P err) {e : Expr}
    (hdeep : P .tooDeep ∨ e.frames s.costs ≤ s.free)
    (he : e.Everywhere (Confined P ev.functions fs)) :
    Ends P (·.isFinite = true) (e.eval ev fs s) := by
  refine ends_eval_of_tolerances (fun err herr => ?_) hnumeric hdeep he
  rw [ht] at herr
  cases herr

/-- No node gives other errors than those with which variables and calls are refused. -/
theorem everywhere_confined (e : Expr) (functions : List Builtin) (fs : Fields)
    (hunknown : ∀ name available, P (.unknownVariable name available))
    (hinvalid : ∀ name typeName, P (.invalidVariable name typeName))
    (hfunction : ∀ name, P (.call (.unknown name)))
    (harity : ∀ f count, P (.call (.arity f count))) :
    e.Everywhere (Confined P functions fs) := by
  intro n _
  cases n with
  | «variable» name => exact ends_lookup (hunknown name _) (hinvalid name)
  | call name args =>
    rw [Confined]
    cases Builtin.find? functions name with
    | none => exact hfunction name
    | some f => exact fun _ => harity f _
  | literal | unary | binary | choice => trivial

/-- Whatever the tolerances are, the value of a formula is a finite number. -/
theorem isFinite_eval (ev : Evaluator) (fs : Fields) (e : Expr) (s : Stack) :
    Ends (fun _ => True) (·.isFinite = true) (e.eval ev fs s) := by
  refine ends_eval_of_tolerances (fun _ _ => trivial) (fun _ _ => trivial) (.inl trivial) ?_
  exact e.everywhere_confined _ _ (fun _ _ => trivial) (fun _ _ => trivial) (fun _ => trivial)
    (fun _ _ => trivial)

/-- An evaluation does not run out of frames if there are as many as the formula takes. -/
theorem eval_ne_tooDeep {e : Expr} (h : e.frames s.costs ≤ s.free) :
    e.eval ev fs s ≠ .error .tooDeep := by
  have hends : Ends (· ≠ .tooDeep) (·.isFinite = true) (e.eval ev fs s) := by
    refine ends_eval_of_tolerances (by simp) ?_ (.inr h) ?_
    · rintro _ hnumeric rfl
      exact hnumeric
    · exact e.everywhere_confined _ _ (by simp) (by simp) (by simp) (by simp)
  intro heval
  rw [heval] at hends
  exact hends rfl

end Expr

/-! ## Runs -/

namespace EvalError

/-- The kinds of errors with which evaluations refuse a formula or its bindings. -/
def refusalKinds : List String :=
  ["ExecutionError", "DivisionByZeroError", "UnknownVariableError", "InvalidVariableError",
    "FunctionError"]

/-- Whether an error is a refusal: neither a failed conversion of numbers, nor the discovery that a
function gave a result that is not finite or that has too many digits. -/
def IsRefusal : EvalError → Prop
  | .number _ | .notFinite _ | .call (.notRounded _) => False
  | _ => True

/-- Numeric errors are refusals. -/
theorem IsNumeric.isRefusal {err : EvalError} (h : err.IsNumeric) : err.IsRefusal := by
  cases err with
  | call e => cases e <;> simp_all [IsNumeric, IsRefusal]
  | number | notFinite => exact h.elim
  | _ => trivial

/-- The kind of a refusal is in the list of their kinds. -/
theorem IsRefusal.kind_mem {err : EvalError} (h : err.IsRefusal) : err.kind ∈ refusalKinds := by
  cases err with
  | number => exact h.elim
  | _ => simp [kind, refusalKinds]

end EvalError

namespace Evaluator

/-- A formula whose evaluation gives a finite number or a certain sort of error has a finite value or
an error of that sort. -/
theorem run_ends {P : EvalError → Prop} {ev : Evaluator} {e : Expr} {b : Value} {fs : Fields}
    (hb : bindingsOf b = .ok fs) (h : Ends P (·.isFinite = true) (e.eval ev fs stack)) :
    (∃ out, ev.run (.formula e) b = .ok out ∧ out.value.isFinite = true) ∨
      ∃ err, ev.run (.formula e) b = .error err ∧ P err := by
  rw [run_formula hb, evaluate]
  cases heval : e.eval ev fs stack with
  | error err =>
    rw [heval] at h
    exact .inr ⟨err, rfl, h⟩
  | ok p =>
    rw [heval] at h
    exact .inl ⟨_, rfl, h⟩

/-- However the bindings, the functions and the stack are chosen, the evaluation of a formula ends
with a finite number or with a refusal. -/
theorem ends_eval_refusal (t : Tolerances) (functions : List Builtin) (fs : Fields) (e : Expr)
    (s : Stack) : Ends EvalError.IsRefusal (·.isFinite = true) (e.eval ⟨.ok t, functions⟩ fs s) := by
  refine Expr.ends_eval rfl (fun _ => EvalError.IsNumeric.isRefusal) (.inl trivial) ?_
  exact e.everywhere_confined _ _ (fun _ _ => trivial) (fun _ _ => trivial) (fun _ => trivial)
    (fun _ _ => trivial)

/-- Bindings are refused by an error that is a refusal. -/
theorem isRefusal_of_bindingsOf {b : Value} {err : EvalError} (h : bindingsOf b = .error err) :
    err.IsRefusal := by
  cases b <;> cases h <;> trivial

/-- What is no formula is refused. -/
theorem run_other (ev : Evaluator) (v b : Value) :
    ∃ err, ev.run (.other v) b = .error err ∧ err.IsRefusal := by
  cases v with
  | null => exact ⟨.noFormula, rfl, trivial⟩
  | _ =>
    unfold run
    cases hb : bindingsOf b with
    | error err => exact ⟨err, rfl, isRefusal_of_bindingsOf hb⟩
    | ok fs => exact ⟨.notFormula _, rfl, trivial⟩

/-- A run of whatever is handed in as a formula, under whatever is handed in as bindings, gives a
finite number or refuses with an error of one of the kinds for it. So does the evaluation of each
part of the formula, on whatever stack it is reached. -/
theorem run_safe (t : Tolerances) (functions : List Builtin) (tree : Part) (b : Value) :
    ((∃ out, run ⟨.ok t, functions⟩ tree b = .ok out ∧ out.value.isFinite = true) ∨
      ∃ err, run ⟨.ok t, functions⟩ tree b = .error err ∧
        err.IsRefusal ∧ err.kind ∈ EvalError.refusalKinds) ∧
    ∀ e fs, tree = .formula e → bindingsOf b = .ok fs → ∀ n ∈ e.nodes, ∀ s,
      Ends EvalError.IsRefusal (·.isFinite = true) (n.eval ⟨.ok t, functions⟩ fs s) := by
  refine ⟨?_, fun e fs _ _ n _ s => ends_eval_refusal t functions fs n s⟩
  cases tree with
  | other v =>
    obtain ⟨err, herr, h⟩ := run_other ⟨.ok t, functions⟩ v b
    exact .inr ⟨err, herr, h, h.kind_mem⟩
  | formula e =>
    cases hb : bindingsOf b with
    | error err =>
      have herr : run ⟨.ok t, functions⟩ (.formula e) b = .error err := by
        unfold run
        simp only [hb]
        rfl
      have h := isRefusal_of_bindingsOf hb
      exact .inr ⟨err, herr, h, h.kind_mem⟩
    | ok fs =>
      obtain h | ⟨err, herr, h⟩ := run_ends hb (ends_eval_refusal t functions fs e stack)
      · exact .inl h
      · exact .inr ⟨err, herr, h, h.kind_mem⟩

end Evaluator

end PayrollFormula
