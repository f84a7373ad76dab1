import Mathlib.Data.List.Permutation
import Mathlib.Data.List.Sublists
import PayrollFormula.Proofs.Engine.Sessions
import PayrollFormula.Proofs.Eval.Safety
import PayrollFormula.Proofs.Text.Names
import PayrollFormula.Proofs.Value

/-!
# What the log discloses about an evaluation

The event about an evaluation says what failed, or which variables were used, but not one of the
numbers. `Engine.loggable` lists all events that there can be for a formula, from nothing but the
names that are bound and the types of what they are bound to; the event that is logged is one of
them whatever the numbers are (`execute_discloses_no_amount`).
-/

set_option autoImplicit false

namespace PayrollFormula

open Eval

/-! ## The errors that there can be -/

/-- The errors that operations and functions of finite numbers give. -/
def EvalError.numeric : List EvalError :=
  [BinaryOp.div, .mod].map .divisionByZero ++
    [BinaryOp.add, .sub, .mul, .div, .mod].map .overflow ++
    [CallError.placesNotWhole, .placesOutOfRange].map .call

/-- The list of numeric errors has all of them. -/
theorem EvalError.mem_numeric {err : EvalError} (h : err.IsNumeric) : err ∈ numeric := by
  unfold numeric
  simp only [List.mem_append, List.mem_map]
  cases err with
  | divisionByZero op => exact .inl (.inl ⟨op, h, rfl⟩)
  | overflow op => exact .inl (.inr ⟨op, h, rfl⟩)
  | call e => exact .inr ⟨e, h, rfl⟩
  | _ => exact h.elim

namespace Expr

/-- The errors that a node gives, its parts aside, if the given names are bound to values of the
given types. -/
def refusals (names : List String) (typeOf : String → String) : Expr → List EvalError
  | .variable name =>
    if name ∈ names then [.invalidVariable name (typeOf name)]
    else [.unknownVariable name (sortTexts names)]
  | .call name args =>
    match Builtin.find? Builtin.all name with
    | none => [.call (.unknown name)]
    | some f => if args.length = f.arity then [] else [.call (.arity f args.length)]
  | _ => []

/-- The errors that there can be in an evaluation of a formula. -/
def errors (names : List String) (typeOf : String → String) (e : Expr) : List EvalError :=
  EvalError.numeric ++ .tooDeep :: e.nodes.flatMap (refusals names typeOf)

/-- The lists of variables that an evaluation of a formula can have used: each variable at most
once, in any order. -/
def usages (e : Expr) : List (List String) := e.variableNames.sublists.flatMap List.permutations

/-- Any selection of the variables of a formula, in any order, is one of the lists of variables
used. -/
theorem mem_usages {e : Expr} {used : List String} (hnodup : used.Nodup)
    (hused : ∀ name ∈ used, name ∈ e.variableNames) : used ∈ e.usages := by
  obtain ⟨names, hperm, hsub⟩ := List.subperm_of_subset hnodup hused
  have hmem : used ∈ names.permutations := List.mem_permutations.mpr hperm.symm
  exact List.mem_flatMap.mpr ⟨names, List.mem_sublists.mpr hsub, hmem⟩

variable {names : List String} {typeOf : String → String} {fs : Fields}

/-- Looking a variable up gives a finite number, or is refused as the names and types say. -/
theorem ends_lookup_refusals (hnames : fs.names.Perm names)
    (htypes : ∀ f ∈ fs, f.2.typeName = typeOf f.1) (name : String) :
    Ends (· ∈ refusals names typeOf (.variable name)) (·.isFinite = true) (lookup fs name) := by
  rw [refusals, ← sortTexts_eq_of_perm hnames]
  simp only [← hnames.mem_iff]
  cases hv : fs.get? name with
  | none =>
    unfold lookup
    rw [hv, if_neg (Fields.get?_eq_none_iff.mp hv)]
    exact ends_fail List.mem_cons_self
  | some v =>
    have hname : name ∈ fs.names := by
      by_contra h
      rw [Fields.get?_eq_none_iff.mpr h] at hv
      cases hv
    rw [if_pos hname]
    unfold lookup
    rw [hv]
    cases hx : v.number? with
    | some x =>
      have hfinite : x.isFinite = true := (Option.filter_eq_some_iff.mp hx).2
      simp only [hx]
      exact hfinite
    | none =>
      simp only [hx]
      rw [htypes (name, v) (Fields.mem_of_get? hv)]
      exact ends_fail List.mem_cons_self

/-- No node of a formula gives an evaluation other errors than its refusals. -/
theorem confined_refusals (hnames : fs.names.Perm names)
    (htypes : ∀ f ∈ fs, f.2.typeName = typeOf f.1) (n : Expr) :
    n.Confined (· ∈ n.refusals names typeOf) Builtin.all fs := by
  cases n with
  | «variable» name => exact ends_lookup_refusals hnames htypes name
  | call name args =>
    simp only [Confined, refusals]
    cases Builtin.find? Builtin.all name with
    | none => exact List.mem_singleton_self _
    | some f =>
      intro hcount
      simp only [if_neg hcount]
      exact List.mem_singleton_self _
  | literal | unary | binary | choice => trivial

/-- No node refuses a number that was to be rounded. -/
theorem notRounded_not_mem_refusals (x : Double) (n : Expr) :
    .call (.notRounded x) ∉ n.refusals names typeOf := by
  cases n with
  | «variable» name =>
    rw [refusals]
    split <;> simp
  | call name args =>
    rw [refusals]
    split
    · simp
    · split <;> simp
  | literal | unary | binary | choice => exact List.not_mem_nil

/-- A node that gives errors of one sort gives errors of any wider sort. -/
theorem Confined.mono {P P' : EvalError → Prop} {functions : List Builtin} {n : Expr}
    (hn : n.Confined P functions fs) (h : ∀ err, P err → P' err) : n.Confined P' functions fs := by
  cases n with
  | «variable» name => exact Ends.mono hn h
  | call name args =>
    simp only [Confined] at hn ⊢
    cases hf : Builtin.find? functions name with
    | none =>
      rw [hf] at hn
      exact h _ hn
    | some f =>
      rw [hf] at hn
      exact fun hcount => h _ (hn hcount)
  | literal | unary | binary | choice => trivial

/-- An evaluation of a formula ends with a number or with one of the errors that there can be. -/
theorem ends_eval_errors {ev : Evaluator} {t : Tolerances} (ht : ev.tolerances = .ok t)
    (hfunctions : ev.functions = Builtin.all) (hnames : fs.names.Perm names)
    (htypes : ∀ f ∈ fs, f.2.typeName = typeOf f.1) (e : Expr) (s : Stack) :
    Ends (· ∈ e.errors names typeOf) (·.isFinite = true) (e.eval ev fs s) := by
  unfold errors
  refine ends_eval ht ?_ (.inl ?_) ?_
  · exact fun err h => List.mem_append_left _ (EvalError.mem_numeric h)
  · exact List.mem_append_right _ List.mem_cons_self
  · intro n hn
    rw [hfunctions]
    refine (confined_refusals hnames htypes n).mono fun err herr => ?_
    exact List.mem_append_right _ (List.mem_cons_of_mem _ (List.mem_flatMap.mpr ⟨n, hn, herr⟩))

end Expr

/-! ## The events that there can be -/

/-- The event without what the clock has shown. -/
def Event.timeless (e : Event) : Event :=
  { e with time := "", context := e.context.erase Event.durationField }

namespace Engine

/-- The results of evaluating a formula, or the absence of one, up to the value. -/
def results (tree : Option Expr) (names : List String) (typeOf : String → String) :
    List (Except EvalError Outcome) :=
  match tree with
  | none => [.error .noFormula]
  | some e =>
    (e.usages.map fun used => .ok ⟨.zero, used⟩) ++ (e.errors names typeOf).map .error

/-- The events about evaluating a formula that can be logged if the given names are bound to values
of the given types, without what the clock shows. -/
def loggable (tree : Option Expr) (formulaId : Option String) (names : List String)
    (typeOf : String → String) : List Event :=
  (results tree names typeOf).map fun result =>
    (executeEvent ⟨"", .zero⟩ formulaId result (tree.map Expr.digest)).prepared.timeless

/-- The event about a value, without what the clock shows, depends on the variables that were used
for it alone. -/
theorem timeless_executeEvent_ok (now now' : Moment) (formulaId : Option String)
    (value value' : Double) (used : List String) (hash : Option String) :
    (executeEvent now formulaId (.ok ⟨value, used⟩) hash).prepared.timeless =
      (executeEvent now' formulaId (.ok ⟨value', used⟩) hash).prepared.timeless := by
  cases hash <;> cases formulaId <;> rfl

/-- The event about a failure, without what the clock shows, depends on the failure alone. -/
theorem timeless_executeEvent_error (now now' : Moment) (formulaId : Option String)
    (err : EvalError) (hash : Option String) :
    (executeEvent now formulaId (.error err) hash).prepared.timeless =
      (executeEvent now' formulaId (.error err) hash).prepared.timeless := by
  cases err <;> cases hash <;> cases formulaId <;> rfl

variable {names : List String} {typeOf : String → String} {fs : Fields}

/-- An evaluation of a formula fails with one of the errors that there can be, or has used some of
the variables. -/
theorem run_mem_results (en : Engine) (hnames : fs.names.Perm names)
    (htypes : ∀ f ∈ fs, f.2.typeName = typeOf f.1) (tree : Option Expr) :
    (∃ out, en.evaluator.run (partOf tree) (.record fs) = .ok out ∧
        .ok ⟨.zero, out.used⟩ ∈ results tree names typeOf) ∨
      ∃ err, en.evaluator.run (partOf tree) (.record fs) = .error err ∧
        .error err ∈ results tree names typeOf := by
  cases tree with
  | none => exact .inr ⟨.noFormula, rfl, List.mem_singleton_self _⟩
  | some e =>
    have hends : Ends (· ∈ e.errors names typeOf) (·.isFinite = true)
        (e.eval en.evaluator fs Evaluator.stack) :=
      Expr.ends_eval_errors rfl rfl hnames htypes e _
    rcases Evaluator.run_ends (b := .record fs) rfl hends with ⟨out, hout, -⟩ | ⟨err, herr, hmem⟩
    · obtain ⟨hnodup, hused, -⟩ := Evaluator.evaluate_depends_on_used hout
      refine .inl ⟨out, hout, List.mem_append_left _ (List.mem_map.mpr ⟨out.used, ?_, rfl⟩)⟩
      exact Expr.mem_usages hnodup hused
    · exact .inr ⟨err, herr, List.mem_append_right _ (List.mem_map_of_mem hmem)⟩

/-- There is no error about the number that was to be rounded. -/
theorem notRounded_not_mem_results (tree : Option Expr) (x : Double) :
    .error (.call (.notRounded x)) ∉ results tree names typeOf := by
  cases tree with
  | none => simp [results]
  | some e =>
    have hnumeric : EvalError.call (.notRounded x) ∉ EvalError.numeric := by
      simp [EvalError.numeric]
    simpa [results, Expr.errors, hnumeric] using
      fun n _ => Expr.notRounded_not_mem_refusals x n

/-- Every event about an evaluation under the hash of the formula's text can be logged, without what
the clock shows. -/
theorem timeless_mem_loggable (en : Engine) (now : Moment) (formulaId : Option String)
    (hnames : fs.names.Perm names) (htypes : ∀ f ∈ fs, f.2.typeName = typeOf f.1)
    (tree : Option Expr) :
    (executeEvent now formulaId (en.evaluator.run (partOf tree) (.record fs))
      (tree.map Expr.digest)).prepared.timeless ∈ loggable tree formulaId names typeOf := by
  unfold loggable
  rcases run_mem_results en hnames htypes tree with ⟨out, hrun, hmem⟩ | ⟨err, hrun, hmem⟩
  · rw [hrun]
    exact List.mem_map.mpr ⟨_, hmem, timeless_executeEvent_ok _ _ _ _ _ _ _⟩
  · rw [hrun]
    exact List.mem_map.mpr ⟨_, hmem, timeless_executeEvent_error _ _ _ _ _⟩

/-- No evaluation fails because of the number that was to be rounded. -/
theorem run_ne_notRounded (en : Engine) (hnames : fs.names.Perm names)
    (htypes : ∀ f ∈ fs, f.2.typeName = typeOf f.1) (tree : Option Expr) (x : Double) :
    en.evaluator.run (partOf tree) (.record fs) ≠ .error (.call (.notRounded x)) := by
  intro h
  rcases run_mem_results en hnames htypes tree with ⟨out, hrun, -⟩ | ⟨err, hrun, hmem⟩
  · rw [h] at hrun
    cases hrun
  · rw [h] at hrun
    cases hrun
    exact notRounded_not_mem_results tree x hmem

/-- The event that is logged about an evaluation is, but for what the clock shows, one of finitely
many that the formula determines together with the names that are bound and the types of what they
are bound to. No error is about a number that was computed. The tree is told from others in memory
by its address, as it always is in a session (`Session.Sound.tells`). Nothing at all is logged only
if the stack overflows because the formula is too deep to be written out. -/
theorem execute_discloses_no_amount (en : Engine) (now : Moment) (tree : Option Tree) (fs : Fields)
    (run formulaId : Option String) (names : List String) (typeOf : String → String)
    (htells : ∀ t ∈ tree, en.digests.Tells t)
    (hnames : fs.names.Perm names) (htypes : ∀ f ∈ fs, f.2.typeName = typeOf f.1) :
    ((∃ logged : Event,
        (en.execute now tree (.record fs) run formulaId).2.journal =
          en.journal.map (fun j => (j.write logged run).1) ∧
        logged.timeless ∈ loggable (tree.map (·.expr)) formulaId names typeOf) ∨
      (∃ t ∈ tree, ¬ t.expr.IsWritable) ∧
        en.execute now tree (.record fs) run formulaId = (.error .overflow, en)) ∧
    ∀ x, (en.execute now tree (.record fs) run formulaId).1 ≠
      .error (.own (.call (.notRounded x))) := by
  have hcases := en.reporting_cases (en.evaluator.run (partOf (tree.map (·.expr))) (.record fs))
    tree (executeEvent now formulaId
      (en.evaluator.run (partOf (tree.map (·.expr))) (.record fs))) run htells
  have hmem := timeless_mem_loggable en now formulaId hnames htypes (tree.map (·.expr))
  rcases hcases with ⟨hresult, hjournal⟩ | ⟨hdeep, hover⟩
  · refine ⟨.inl ⟨_, hjournal, ?_⟩, ?_⟩
    · rw [Option.map_map] at hmem
      exact hmem
    · intro x hx
      rw [execute, hresult] at hx
      cases hrun : en.evaluator.run (partOf (tree.map (·.expr))) (.record fs) with
      | ok out =>
        rw [hrun] at hx
        cases hx
      | error err =>
        rw [hrun] at hx
        cases hx
        exact run_ne_notRounded en hnames htypes _ x hrun
  · refine ⟨.inr ⟨hdeep, hover⟩, ?_⟩
    intro x hx
    rw [execute, hover] at hx
    cases hx

/-- Whatever is paid for no hours at all, the log of the quotient does not tell. -/
theorem execute_quotient_discloses_no_amount :
    ∃ logged : Event,
      ((ofSettings .standard (some ⟨.empty, 1000⟩)).execute ⟨"", .zero⟩
        (some ⟨0, .binary .div (.variable "pay") (.variable "hours")⟩)
        (.record [("hours", .int 0), ("pay", .double .one)]) none none).2.journal =
          some (Journal.write ⟨.empty, 1000⟩ logged none).1 ∧
      logged.timeless ∈ loggable (some (.binary .div (.variable "pay") (.variable "hours"))) none
        ["pay", "hours"] fun name => if name = "pay" then "float" else "int" := by
  refine ((execute_discloses_no_amount (ofSettings .standard (some ⟨.empty, 1000⟩)) ⟨"", .zero⟩
    (some ⟨0, .binary .div (.variable "pay") (.variable "hours")⟩)
    [("hours", .int 0), ("pay", .double .one)] none none _ _ ?_ ?_ ?_).1).resolve_right ?_
  · rintro t - k hk
    cases hk
  · exact List.Perm.swap _ _ _
  · intro f hf
    rcases List.mem_pair.mp hf with rfl | rfl <;> rfl
  · rintro ⟨⟨t, ht, hdeep⟩, -⟩
    rw [← Option.some.inj ht] at hdeep
    exact hdeep (by decide)

end Engine

end PayrollFormula
