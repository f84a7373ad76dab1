import PayrollFormula.Check.Validation
import PayrollFormula.Proofs.Eval.Safety
import PayrollFormula.Proofs.Formula.Accepted

/-!
# Validation is sound

A formula without issues evaluates under all bindings that give each known variable a number: its
variables are known, its calls are of functions that exist and take as many arguments, and it is
not deep enough to exhaust the frames of an evaluation. Only numeric errors remain
(`Formula.validate_sound`).
-/

set_option autoImplicit false

namespace PayrollFormula

open Eval

namespace Expr

variable {functions : List Builtin} {known : List String} {e : Expr}

/-- A formula has no issues if no call in it has one and its variables are known. -/
theorem validate_valid_iff {arities : String → Option ℕ} :
    (e.validate arities (some known)).valid = true ↔
      (∀ n ∈ e.nodes, n.callIssue? arities = none) ∧ ∀ name ∈ e.variableNames, name ∈ known := by
  rw [Validation.valid, List.isEmpty_iff, validate, List.append_eq_nil_iff, callIssues,
    List.filterMap_eq_nil_iff, variableIssues, List.map_eq_nil_iff, List.filter_eq_nil_iff]
  simp

/-- A call without an issue is of a function that exists and takes as many arguments. -/
theorem callIssue?_call_eq_none {name : String} {args : List Expr}
    (h : (call name args).callIssue? (Builtin.arities functions) = none) :
    ∃ f, Builtin.find? functions name = some f ∧ args.length = f.arity := by
  rw [callIssue?, Builtin.arities] at h
  cases hf : Builtin.find? functions name with
  | none =>
    rw [hf] at h
    cases h
  | some f =>
    rw [hf] at h
    by_cases hcount : args.length = f.arity
    · exact ⟨f, rfl, hcount⟩
    · simp only [Option.map_some, if_neg hcount] at h
      cases h

/-- A formula without issues has nothing but numeric errors under bindings of all known
variables. -/
theorem confined_of_valid
    (h : (e.validate (Builtin.arities functions) (some known)).valid = true) {fs : Fields}
    (hfs : ∀ name ∈ known, ∃ v x, fs.get? name = some v ∧ v.number? = some x) :
    e.Everywhere (Confined EvalError.IsNumeric functions fs) := by
  obtain ⟨hcalls, hnames⟩ := validate_valid_iff.mp h
  intro n hn
  match n with
  | .variable name =>
    obtain ⟨v, x, hv, hx⟩ := hfs name (hnames name (mem_variableNames.mpr hn))
    have hfinite : x.isFinite = true := (Option.filter_eq_some_iff.mp hx).2
    rw [Confined, lookup_of_get? hv hx]
    exact hfinite
  | .call name args =>
    obtain ⟨f, hf, hcount⟩ := callIssue?_call_eq_none (hcalls _ hn)
    rw [Confined, hf]
    exact fun hne => absurd hcount hne
  | .literal _ | .unary _ _ | .binary _ _ _ | .choice _ _ _ => trivial

end Expr

namespace Formula

/-- A text without issues is a formula. Under bindings of all known variables to numbers, its
evaluation with the functions that it was checked against gives a finite number, unless it divides
by zero, a result is too large, or a number of decimal places is refused. -/
theorem validate_sound {limits : Limits} {functions : List Builtin} {known : List String}
    {text : Value} (h : (validate limits functions (some known) text).valid = true) :
    ∃ e, parseValue limits text = .ok e ∧
      ∀ (t : Tolerances) (b : Value) (fs : Fields), Evaluator.bindingsOf b = .ok fs →
        (∀ name ∈ known, ∃ v x, fs.get? name = some v ∧ v.number? = some x) →
        (∃ out, Evaluator.run ⟨.ok t, functions⟩ (.formula e) b = .ok out ∧
          out.value.isFinite = true) ∨
        ∃ err, Evaluator.run ⟨.ok t, functions⟩ (.formula e) b = .error err ∧ err.IsNumeric := by
  rw [validate, check] at h
  cases he : parseValue limits text with
  | error err =>
    rw [he] at h
    cases h
  | ok e =>
    rw [he] at h
    refine ⟨e, rfl, ?_⟩
    intro t b fs hb hfs
    apply Evaluator.run_ends hb
    apply Expr.ends_eval rfl
    · intro err herr
      exact herr
    · exact .inr (limits.frames_evaluation_le (height_le_of_parseValue he))
    · exact Expr.confined_of_valid h hfs

/-- A quotient of two known variables has no issues, and under bindings of both of them only the
division by zero can go wrong. -/
theorem validate_sound_quotient :
    (validate .standard Builtin.all (some ["a", "b"]) (.text "a / b")).valid = true ∧
      ((∃ out, Evaluator.standard.run (.formula (.binary .div (.variable "a") (.variable "b")))
          (.record [("a", .int 1), ("b", .fraction 0)]) = .ok out ∧ out.value.isFinite = true) ∨
        ∃ err, Evaluator.standard.run (.formula (.binary .div (.variable "a") (.variable "b")))
          (.record [("a", .int 1), ("b", .fraction 0)]) = .error err ∧ err.IsNumeric) := by
  have hparse : parseValue .standard (.text "a / b") =
      .ok (.binary .div (.variable "a") (.variable "b")) := by
    rw [parseValue, parse_eq_ok_iff_tree, Expr.depth_eq_height]
    exact ⟨by decide, by decide, by rfl, by decide⟩
  have hvalid : (validate .standard Builtin.all (some ["a", "b"]) (.text "a / b")).valid = true := by
    rw [validate, check, hparse]
    simp [Expr.validate_valid_iff, mem_variableNames, Expr.callIssue?]
  refine ⟨hvalid, ?_⟩
  obtain ⟨e, he, hrun⟩ := validate_sound hvalid
  cases hparse.symm.trans he
  refine hrun .standard _ _ rfl ?_
  intro name hname
  rcases List.mem_pair.mp hname with rfl | rfl
  · exact ⟨.int 1, .one, rfl, by decide +kernel⟩
  · exact ⟨.fraction 0, .zero, rfl, by decide +kernel⟩

end Formula

end PayrollFormula
