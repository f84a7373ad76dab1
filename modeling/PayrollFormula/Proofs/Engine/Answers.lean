import Mathlib.Data.Nat.Notation
import PayrollFormula.Proofs.Engine.Sessions

/-!
# What answers depend on

A session has a journal, an engine that keeps hashes, and trees somewhere in memory, and an answer
could depend on any of them. `View` is what it does depend on: the limits, the evaluator, and which
formulas have names. A view answers requests by itself, and a session answers as its view does
(`Sound.respond_eq`, `Sound.respondAll_eq`). So what the engine reports, where to, whether it can be
written and what hashes are kept for it makes no difference to the answers (`answers_free_of_log`).
-/

set_option autoImplicit false

namespace PayrollFormula

/-- What the answers of a session depend on. -/
structure View where
  limits : Limits
  evaluator : Evaluator
  formulas : List (String × Expr)

namespace View

/-- The formula with a name. -/
def formula? (v : View) (name : String) : Option Expr :=
  (v.formulas.find? (·.1 = name)).map (·.2)

/-- The answer to a request, and the view after it. -/
def respond (v : View) : Request → Answer × View
  | .parse text name _ =>
    match Formula.parseValue v.limits text with
    | .ok e =>
      (.tree (.ok e), { v with formulas := (name, e) :: v.formulas.filter (·.1 ≠ name) })
    | .error err => (.tree (.error (.own err)), v)
  | .execute name bindings _ _ =>
    let result := v.evaluator.run (Engine.partOf (v.formula? name)) bindings
    (.ofOutcome bindings (result.mapError .own), v)
  | .evaluate text bindings _ _ =>
    let result := Formula.calculate v.limits v.evaluator text bindings
    (.ofValue bindings (result.mapError .own), v)
  | .validate text known =>
    (.validation (Formula.validate v.limits Builtin.all known text), v)
  | .trial text bindings => (.trial (Formula.trial v.limits v.evaluator text bindings), v)
  | .digest name =>
    match v.formula? name with
    | none => (.digest (.error (.own (.notFormula Value.null.typeName))), v)
    | some e => (.digest (.ok e.digest), v)

/-- The answers to requests, one after another. -/
def respondAll (v : View) : List Request → List Answer
  | [] => []
  | request :: rest => (v.respond request).1 :: (v.respond request).2.respondAll rest

end View

namespace Session

/-- The view of a session. -/
def view (s : Session) : View :=
  ⟨s.engine.settings.limits, s.engine.evaluator, s.trees.map fun p => (p.1, p.2.expr)⟩

variable {s : Session}

/-- The formula with a name is that of the tree with the name. -/
theorem formula?_view (s : Session) (name : String) :
    s.view.formula? name = (s.tree? name).map (·.expr) := by
  simp only [View.formula?, view, tree?, List.find?_map, Option.map_map]
  rfl

/-- What an engine becomes when it meets some trees makes no difference to the view. -/
theorem view_of_follows {ts : List Tree} {en : Engine} (h : s.engine.Follows ts en) :
    view ⟨en, s.trees⟩ = s.view := by
  simp only [view, Engine.evaluator, h.settings_eq]

/-- A tree that is named has its formula named in the view. -/
theorem view_named {ts : List Tree} {en : Engine} (h : s.engine.Follows ts en) (name : String)
    (tree : Tree) :
    view ⟨en, named name tree s.trees⟩ =
      { s.view with
        formulas := (name, tree.expr) :: s.view.formulas.filter (·.1 ≠ name) } := by
  simp only [view, Engine.evaluator, h.settings_eq, named, List.map_cons, List.filter_map]
  rfl

/-- A session answers a request as its view does, and its view after that is the view's. -/
theorem Sound.respond_eq (h : s.Sound) (around : Surroundings) (request : Request) :
    ((s.respond around request).1, (s.respond around request).2.view) = s.view.respond request := by
  cases request with
  | parse text name formulaId =>
    have hfollows :=
      s.engine.follows_parse around.now (s.address around.memory) text formulaId
    have hlimits : s.view.limits = s.engine.settings.limits := rfl
    rw [View.respond, hlimits]
    cases hread : Formula.parseValue s.engine.settings.limits text with
    | error err =>
      rw [s.engine.parse_of_error _ _ _ _ hread] at hfollows
      rw [Session.respond, s.engine.parse_of_error _ _ _ _ hread]
      exact Prod.ext rfl (view_of_follows hfollows)
    | ok e =>
      rw [Session.respond, s.engine.parse_of_ok _ _ _ _ hread]
      exact Prod.ext rfl (view_named hfollows name _)
  | execute name bindings run formulaId =>
    have hwritable : ∀ t ∈ s.tree? name, t.expr.IsWritable :=
      fun t ht => h.writable _ (mem_live_of_tree? ht).1
    have hfollows := s.engine.follows_execute around.now bindings run formulaId (s.tree? name)
    refine Prod.ext ?_ (view_of_follows hfollows)
    simp only [Session.respond, View.respond, s.engine.fst_execute _ _ _ _ hwritable,
      formula?_view]
    rfl
  | evaluate text bindings run formulaId =>
    have hfollows := s.engine.follows_evaluate around.now (s.address around.memory) text bindings
      run formulaId
    refine Prod.ext ?_ (view_of_follows hfollows)
    simp only [Session.respond, View.respond, s.engine.fst_evaluate]
    rfl
  | validate text known => rfl
  | trial text bindings => rfl
  | digest name =>
    simp only [View.respond, formula?_view]
    cases htree : s.tree? name with
    | none =>
      simp only [Session.respond, htree]
      rfl
    | some tree =>
      -- The hash may have been kept for a report, and is that of the tree's text all the same.
      have hdigest : (s.engine.digest tree).1 = some tree.expr.digest :=
        Digests.fst_digest? (h.tells htree) (h.writable _ (mem_live_of_tree? htree).1)
      simp only [Session.respond, htree, hdigest, Option.map_some]
      exact Prod.ext rfl (view_of_follows (s.engine.follows_digest tree))

/-- A session answers requests, one after another, as its view does. -/
theorem Sound.respondAll_eq (h : s.Sound) (around : ℕ → Surroundings) (requests : List Request) :
    (s.respondAll around requests).1 = s.view.respondAll requests := by
  induction requests generalizing s around with
  | nil => rfl
  | cons request rest ih =>
    rw [Session.respondAll, View.respondAll, ← h.respond_eq (around 0) request]
    exact congrArg _ (ih (h.respond (around 0) request) _)

end Session

namespace Engine

/-! ## Logs make no difference -/

/-- Whether the three ways in which an engine computes the value of a text come out alike: an
evaluation as reading the text and then evaluating the tree, wherever in memory, at whatever time
and for whatever run, and a trial as an evaluation, with its outcome or with its very error. -/
structure Coherent (en : Engine) : Prop where
  evaluate_eq : ∀ (now later : Moment) (address address' : ℕ) (text bindings : Value)
    (run run' formulaId formulaId' : Option String),
    (en.evaluate now address text bindings run formulaId).1 =
      match en.parse now address' text formulaId with
      | (.error err, _) => .error (err.map .parse)
      | (.ok tree, next) =>
        (next.execute later (some tree) bindings run' formulaId').1.mapError (·.map .eval)
  success_iff : ∀ (now : Moment) (address : ℕ) (text bindings : Value)
    (run formulaId : Option String),
    (en.trial text bindings).1.success = true ↔
      ∃ out, (en.evaluate now address text bindings run formulaId).1 = .ok out
  passed_iff : ∀ (now : Moment) (address : ℕ) (text bindings : Value)
    (run formulaId : Option String) out,
    (en.trial text bindings).1 = .passed out ↔
      (en.evaluate now address text bindings run formulaId).1 = .ok out
  failed_iff : ∀ (now : Moment) (address : ℕ) (text bindings : Value)
    (run formulaId : Option String) err,
    (en.trial text bindings).1 = .failed err ↔
      (en.evaluate now address text bindings run formulaId).1 = .error (.own err)

/-- Every engine computes the value of a text in these ways alike. -/
theorem coherent (en : Engine) : en.Coherent where
  evaluate_eq := by
    intro now later address address' text bindings run run' formulaId formulaId'
    cases h : Formula.parseValue en.settings.limits text with
    | error err =>
      rw [en.evaluate_of_error _ _ _ _ _ _ h, en.parse_of_error now address' text formulaId h]
      rfl
    | ok e =>
      rw [en.evaluate_of_ok _ _ _ _ _ _ h, en.parse_of_ok now address' text formulaId h]
      simp only [Prod.map_fst, en.fst_execute_parse _ _ _ _ _ _ h]
  success_iff := by
    intro now address text bindings run formulaId
    rw [fst_evaluate, trial, Formula.trial]
    cases Formula.calculate en.settings.limits en.evaluator text bindings <;>
      simp [Trial.ofResult, Trial.success, Except.mapError]
  passed_iff := by
    intro now address text bindings run formulaId out
    rw [fst_evaluate, trial, Formula.trial]
    cases Formula.calculate en.settings.limits en.evaluator text bindings <;>
      simp [Trial.ofResult, Except.mapError]
  failed_iff := by
    intro now address text bindings run formulaId err
    rw [fst_evaluate, trial, Formula.trial]
    cases Formula.calculate en.settings.limits en.evaluator text bindings <;>
      simp [Trial.ofResult, Except.mapError]

/-- A tree that was not read may be too deep to be written out. An engine without a journal evaluates
it all the same, and one with a journal fails, unless it has kept the tree's hash. -/
theorem fst_execute_of_not_isWritable (en : Engine) {t : Tree} (hdeep : ¬ t.expr.IsWritable)
    (hnew : en.digests.find? t = none) (now : Moment) (bindings : Value)
    (run formulaId : Option String) :
    (en.execute now (some t) bindings run formulaId).1 =
      if en.journal.isSome then .error .overflow
      else (en.evaluator.run (.formula t.expr) bindings).mapError .own := by
  cases hj : en.journal with
  | none =>
    rw [execute, reporting_of_no_journal _ _ _ _ hj]
    rfl
  | some j =>
    have hnone : (en.digest t).1 = none := by
      simp only [digest, Digests.digest?, hnew, if_neg hdeep]
    rw [execute, reporting_of_none _ _ _ hj hnone]
    rfl

/-- The answers to a run of requests are the same whether logging is on or off, whether there is a
journal, and whatever state it is in: it may be fresh or full, and it may be blocked so that
nothing can be written. They do not depend on where trees are in memory either. After any run of
requests, evaluations, trials and readings of a text agree with each other. -/
theorem answers_free_of_log (settings : Settings) (on on' : Bool)
    (journal journal' : Option Journal) (around around' : ℕ → Surroundings)
    (requests : List Request) :
    ((Session.start { settings with loggingEnabled := on } journal).respondAll around
        requests).1 =
        ((Session.start { settings with loggingEnabled := on' } journal').respondAll around'
          requests).1 ∧
      ((Session.start { settings with loggingEnabled := on } journal).respondAll around
        requests).2.engine.Coherent := by
  have hview : (Session.start { settings with loggingEnabled := on } journal).view =
      (Session.start { settings with loggingEnabled := on' } journal').view := rfl
  refine ⟨?_, coherent _⟩
  rw [(Session.sound_start _ _).respondAll_eq, (Session.sound_start _ _).respondAll_eq, hview]

end Engine

end PayrollFormula
