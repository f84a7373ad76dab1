import PayrollFormula.Engine.Request
import PayrollFormula.Proofs.Eval.Safety
import PayrollFormula.Proofs.Text.Names
import PayrollFormula.Proofs.Value

/-!
# Numbers in the place of variables

A variable that is bound to a number may as well be written as the number: `Expr.inlined` puts a
literal in the place of a variable at every depth of a formula. The run of the formula that results
comes out as the run with the binding does, but for the name of the variable, which is not read and
need not be bound (`run_inlined`).

The two runs are compared by `Eval.Spares`. It holds between evaluations that read nothing and one
evaluation after another inherits it, so only the variable itself has to be looked at.
-/

set_option autoImplicit false

namespace PayrollFormula

open Eval

/-! ## The formula with a number in it -/

namespace Expr

mutual

/-- A formula with a number in the place of a variable. -/
def inlined (name : String) (x : Finite) : Expr → Expr
  | .literal y => .literal y
  | .variable n => if n = name then .literal x else .variable n
  | .unary op a => .unary op (a.inlined name x)
  | .binary op a b => .binary op (a.inlined name x) (b.inlined name x)
  | .choice c a b => .choice (c.inlined name x) (a.inlined name x) (b.inlined name x)
  | .call f args => .call f (inlinedAll name x args)

/-- Several formulas with a number in the place of a variable. -/
def inlinedAll (name : String) (x : Finite) : List Expr → List Expr
  | [] => []
  | a :: rest => a.inlined name x :: inlinedAll name x rest

end

variable {name : String} {x : Finite}

/-- A number is put into several formulas one by one. -/
theorem inlinedAll_eq_map (es : List Expr) : inlinedAll name x es = es.map (inlined name x) := by
  induction es with
  | nil => rfl
  | cons e es ih => rw [inlinedAll, ih, List.map_cons]

/-- The variables of a formula with a number put in are the others. -/
theorem filterMap_variableName?_inlined (e : Expr) :
    (e.inlined name x).nodes.filterMap variableName? =
      (e.nodes.filterMap variableName?).filter (· ≠ name) := by
  induction e using Expr.induction with
  | literal y => simp [inlined, List.filterMap_cons, variableName?]
  | named n =>
    by_cases h : n = name
    · simp [inlined, variableName?, h]
    · simp [inlined, variableName?, h]
  | unary op a iha =>
    simp only [inlined, nodes_unary, List.filterMap_cons, variableName?, iha]
  | binary op a b iha ihb =>
    simp only [inlined, nodes_binary, List.filterMap_cons, variableName?, List.filterMap_append,
      List.filter_append, iha, ihb]
  | choice c a b ihc iha ihb =>
    simp only [inlined, nodes_choice, List.filterMap_cons, variableName?, List.filterMap_append,
      List.filter_append, ihc, iha, ihb]
  | call f args ih =>
    simp only [inlined, inlinedAll_eq_map, nodes_call, List.filterMap_cons, variableName?,
      List.filterMap_flatMap, List.filter_flatMap, List.flatMap_map]
    exact List.flatMap_congr ih

/-- The variables are the same, but for the one whose place the number takes. -/
theorem variableNames_inlined (e : Expr) :
    (e.inlined name x).variableNames = e.variableNames.filter (· ≠ name) := by
  rw [variableNames_eq, filterMap_variableName?_inlined, firstOccurrences_filter, variableNames_eq]

end Expr

/-! ## Evaluations that differ in a name -/

/-- An error without a name among those that it lists as bound. -/
def EvalError.without (name : String) : EvalError → EvalError
  | .unknownVariable n available => .unknownVariable n (available.filter (· ≠ name))
  | err => err

/-- An error that lists a name less is of the same kind. -/
theorem EvalError.kind_without (name : String) (err : EvalError) :
    (err.without name).kind = err.kind := by
  cases err <;> rfl

namespace Eval

variable {α β : Type}

/-- Whether the second of two evaluations comes out as the first one does without reading a name:
with the same value, or with the same error but for this name among those that are bound. -/
inductive Spares (name : String) : Eval α → Eval α → Prop where
  | value (a : α) (reads : List String) :
      Spares name (.ok (a, reads)) (.ok (a, reads.filter (· ≠ name)))
  | failure {err err' : EvalError} :
      err.without name = err'.without name → Spares name (.error err) (.error err')

/-- One evaluation after another spares a name if both do. -/
theorem lifts_spares (name : String) : Lifts (Spares name) where
  silent := by
    intro α x hx
    cases x with
    | error err => exact .failure rfl
    | ok p =>
      obtain ⟨a, reads⟩ := p
      obtain rfl := hx a reads rfl
      exact .value a []
  bind := by
    intro α β x y f g hxy hfg
    cases hxy with
    | failure h =>
      rw [bind_of_error rfl, bind_of_error rfl]
      exact .failure h
    | value a reads =>
      have hnext := hfg a
      generalize hf : f a = z at hnext
      generalize hg : g a = z' at hnext
      cases hnext with
      | failure h =>
        rw [bind_of_ok_error rfl hf, bind_of_ok_error rfl hg]
        exact .failure h
      | value b more =>
        rw [bind_of_ok_ok rfl hf, bind_of_ok_ok rfl hg, ← List.filter_append]
        exact .value b (reads ++ more)

end Eval

/-! ## Readings -/

section Readings

variable {fs : Fields} {name : String} {x : Finite}

/-- Binding a variable adds no other name to those that are bound. -/
theorem Fields.filter_names_set (fs : Fields) (name : String) (v : Value) :
    (fs.set name v).names.filter (· ≠ name) = fs.names.filter (· ≠ name) := by
  rw [Fields.names_set]
  split
  · rfl
  · simp

/-- A name that was bound to a number has it as its value. -/
theorem lookup_set_self : lookup (fs.set name (.double (.finite x))) name = .ok (.finite x, [name]) :=
  lookup_of_get? (by rw [Fields.get?_set, if_pos rfl]) rfl

/-- The name itself is left out of what is read, and every other name is kept. -/
theorem spares_reading (name n : String) (y : Double) :
    Spares name (reading n y) (if n = name then pure y else reading n y) := by
  have h : Spares name (.ok (y, [n])) (.ok (y, [n].filter (· ≠ name))) := .value y [n]
  by_cases hn : n = name
  · rw [List.filter_singleton, decide_eq_false (not_not_intro hn)] at h
    rw [if_pos hn]
    exact h
  · rw [List.filter_singleton, decide_eq_true hn] at h
    rw [if_neg hn]
    exact h

/-- Another variable is read as it would be without the binding. -/
theorem spares_lookup {n : String} (hn : n ≠ name) (v : Value) :
    Spares name (lookup (fs.set name v) n) (lookup fs n) := by
  unfold lookup
  rw [Fields.get?_set, if_neg hn]
  cases fs.get? n with
  | none =>
    refine .failure ?_
    rw [EvalError.without, EvalError.without, filter_sortTexts, filter_sortTexts,
      Fields.filter_names_set]
  | some w =>
    cases hw : w.number? with
    | none =>
      simp only [hw]
      exact .failure rfl
    | some y =>
      have hread := spares_reading name n y
      rw [if_neg hn] at hread
      simp only [hw]
      exact hread

end Readings

/-! ## The evaluation of the formula with a number in it -/

namespace Expr

/-- The evaluation of a formula with a number in the place of a variable comes out as the one with
the variable bound to the number. -/
theorem spares_eval_inlined (ev : Evaluator) (fs : Fields) (name : String) (x : Finite) (e : Expr)
    (s : Stack) : Spares name (e.eval ev (fs.set name (.double (.finite x))) s)
      ((e.inlined name x).eval ev fs s) := by
  have h := lifts_spares name
  have hS := h.carries_eq
  induction e using Expr.induction generalizing s with
  | literal y =>
    rw [inlined, Expr.eval, Expr.eval]
    exact hS (fun _ => 1) s s rfl fun _ _ _ => h.silent (silent_pure _)
  | named n =>
    -- A literal takes as many frames as the variable in whose place it stands.
    rw [inlined]
    by_cases hn : n = name
    · have hread := spares_reading name name (.finite x)
      rw [if_pos rfl] at hread
      rw [if_pos hn, hn, Expr.eval, Expr.eval, lookup_set_self]
      exact hS (fun _ => 1) s s rfl fun _ _ _ => hread
    · rw [if_neg hn, Expr.eval, Expr.eval]
      exact hS (fun _ => 1) s s rfl fun _ _ _ => spares_lookup hn _
  | unary op a iha =>
    rw [inlined, Expr.eval, Expr.eval]
    refine hS (·.unary) s s rfl ?_
    rintro s _ rfl
    exact h.bind (iha s) fun y => h.silent (silent_pure _)
  | binary op a b iha ihb =>
    rw [inlined, Expr.eval, Expr.eval]
    refine hS (·.binary) s s rfl ?_
    rintro s _ rfl
    refine h.bind (iha s) fun y => ?_
    cases op.settled? y with
    | some v => exact h.silent (silent_pure v)
    | none => exact h.bind (ihb s) fun z => h.silent (op.silent_apply _ y z)
  | choice c a b ihc iha ihb =>
    rw [inlined, Expr.eval, Expr.eval]
    refine hS (·.choice) s s rfl ?_
    rintro s _ rfl
    refine h.bind (ihc s) fun y => ?_
    split_ifs
    · exact iha s
    · exact ihb s
  | call f args ih =>
    rw [inlined, inlinedAll_eq_map]
    refine h.eval_call_of_functions rfl f (List.length_map _).symm (hS (·.call) s s rfl)
      (hS (·.each)) (hS (·.asked)) ?_
    rintro s _ rfl
    exact List.forall₂_map_right_iff.mpr (List.forall₂_same.mpr fun a ha => ih a ha s)

/-- A variable that is bound to a finite double is never refused for its value. -/
theorem eval_ne_invalidVariable (ev : Evaluator) (fs : Fields) (name : String) (x : Finite)
    (e : Expr) (s : Stack) (typeName : String) :
    e.eval ev (fs.set name (.double (.finite x))) s ≠ .error (.invalidVariable name typeName) := by
  have hends : Ends (∀ t, · ≠ .invalidVariable name t) (·.isFinite = true)
      (e.eval ev (fs.set name (.double (.finite x))) s) := by
    refine ends_eval_of_tolerances (by simp) ?_ (.inl (by simp)) ?_
    · rintro _ hnumeric t rfl
      exact hnumeric
    · intro n _
      cases n with
      | «variable» n =>
        rw [Confined]
        by_cases hn : n = name
        · rw [hn, lookup_set_self]
          rfl
        · exact ends_lookup (by simp) (by simp [hn])
      | call f args =>
        rw [Confined]
        cases Builtin.find? ev.functions f <;> simp
      | literal | unary | binary | choice => trivial
  intro heval
  rw [heval] at hends
  exact hends typeName rfl

end Expr

/-! ## Runs -/

namespace EvalError

/-- Errors that differ in a name at most are about the same value, if they are not about the
variable of this name. -/
theorem refused?_eq {err err' : EvalError} {name : String} (h : err.without name = err'.without name)
    (hne : ∀ t, err ≠ .invalidVariable name t) {b : Value} {fs : Fields}
    (hb : Evaluator.bindingsOf b = .ok fs) (v : Value) :
    err.refused? (.record (fs.set name v)) = err'.refused? b := by
  cases err with
  | invalidVariable n t =>
    have hn : n ≠ name := by
      rintro rfl
      exact hne t rfl
    cases err' with
    | invalidVariable n' t' =>
      cases h
      have hget : (fs.set name v).get? n = fs.get? n := by rw [Fields.get?_set, if_neg hn]
      unfold refused?
      rw [hb]
      exact hget
    | _ => cases h
  | _ =>
    cases err' with
    | invalidVariable n' t' => cases h
    | _ => rfl

end EvalError

namespace Evaluator

/-- A run with a variable bound to a finite double comes out as the run of the formula with the
double in the place of the variable. The values are the same and so are the variables used, except
that the second run does not use this one, which its formula does not have. If one of the runs fails
so does the other, with an error of the same kind and with the same data, except that the second one
need not list this variable among those that are bound. -/
theorem run_inlined {b : Value} {fs : Fields} (hb : bindingsOf b = .ok fs) (ev : Evaluator)
    (e : Expr) (name : String) (x : Finite) :
    (e.inlined name x).variableNames = e.variableNames.filter (· ≠ name) ∧
      ((∃ out, ev.run (.formula e) (.record (fs.set name (.double (.finite x)))) = .ok out ∧
          ev.run (.formula (e.inlined name x)) b = .ok ⟨out.value, out.used.filter (· ≠ name)⟩) ∨
        ∃ err err', ev.run (.formula e) (.record (fs.set name (.double (.finite x)))) = .error err ∧
          ev.run (.formula (e.inlined name x)) b = .error err' ∧
          err.kind = err'.kind ∧ err.without name = err'.without name ∧
          err.refused? (.record (fs.set name (.double (.finite x)))) = err'.refused? b) := by
  refine ⟨e.variableNames_inlined, ?_⟩
  have hspares := e.spares_eval_inlined ev fs name x stack
  have hvalid := e.eval_ne_invalidVariable ev fs name x stack
  have hrun : ev.run (.formula e) (.record (fs.set name (.double (.finite x)))) =
      ev.evaluate e (fs.set name (.double (.finite x))) := run_formula rfl
  rw [hrun, run_formula hb, evaluate, evaluate]
  generalize e.eval ev (fs.set name (.double (.finite x))) stack = y at hspares hvalid ⊢
  generalize (e.inlined name x).eval ev fs stack = y' at hspares ⊢
  cases hspares with
  | value a reads =>
    refine .inl ⟨_, rfl, ?_⟩
    simp only [firstOccurrences_filter]
  | @failure err err' h =>
    have hkind : err.kind = err'.kind := by
      rw [← EvalError.kind_without name err, h, EvalError.kind_without]
    refine .inr ⟨err, err', rfl, rfl, hkind, h, EvalError.refused?_eq h ?_ hb _⟩
    rintro t rfl
    exact hvalid t rfl

/-- A rate that is bound and a rate that is written out. The second run need not have the rate among
its bindings, and does not list it among the variables used. -/
theorem run_inlined_rate :
    bindingsOf (.record [("base", .double .one)]) = .ok [("base", .double .one)] ∧
      standard.run (.formula (.choice (.variable "rate")
          (.binary .div (.variable "base") (.variable "rate")) (.variable "other")))
        (.record [("base", .double .one), ("rate", .double .one)]) =
          .ok ⟨.one, ["rate", "base"]⟩ ∧
      standard.run (.formula (.choice (.literal .one)
          (.binary .div (.variable "base") (.literal .one)) (.variable "other")))
        (.record [("base", .double .one)]) = .ok ⟨.one, ["base"]⟩ := by
  have hb : bindingsOf (.record [("base", .double .one)]) = .ok [("base", .double .one)] := rfl
  have hbound : standard.run (.formula (.choice (.variable "rate")
      (.binary .div (.variable "base") (.variable "rate")) (.variable "other")))
      (.record [("base", .double .one), ("rate", .double .one)]) =
        .ok ⟨.one, ["rate", "base"]⟩ := by
    decide +kernel
  refine ⟨hb, hbound, ?_⟩
  obtain ⟨-, ⟨out, hout, hinlined⟩ | ⟨err, -, herr, -⟩⟩ := run_inlined hb standard
    (.choice (.variable "rate") (.binary .div (.variable "base") (.variable "rate"))
      (.variable "other")) "rate" .one
  · have hsame := hbound.symm.trans hout
    cases hsame
    exact hinlined
  · have hsame := hbound.symm.trans herr
    cases hsame

end Evaluator

end PayrollFormula
