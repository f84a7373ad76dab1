import PayrollFormula.Proofs.Eval.Lifting
import PayrollFormula.Proofs.Text.Occurrences

/-!
# What an evaluation depends on

The variables that an evaluation used are all that it depends on, in the order in which it needs
them. Under other bindings that agree on them it comes out the same, whatever else they bind; where
they leave some of these variables out, it fails at the first of them (`run_depends_on_used`).

The two runs are compared by `Replays`, which says this of the names that were read, with
repetitions. It holds between readings of one variable, and one evaluation after another inherits
it: if the first is cut short, so are both together.
-/

set_option autoImplicit false

namespace PayrollFormula

open Eval

variable {α β : Type}

/-! ## The value of a variable -/

/-- A variable that is not bound is unknown. -/
theorem lookup_of_missing {fs : Fields} {name : String} (h : fs.has name = false) :
    lookup fs name = .fail (.unknownVariable name (sortTexts fs.names)) := by
  have hget : fs.get? name = none := Option.isNone_iff_eq_none.mp (Option.isSome_eq_false_iff.mp h)
  unfold lookup
  rw [hget]

/-- A variable with a value is bound to it, and looking it up reads it alone. -/
theorem exists_of_lookup_eq_ok {fs : Fields} {name : String} {x : Double} {reads : List String}
    (h : lookup fs name = .ok (x, reads)) :
    ∃ v, fs.get? name = some v ∧ v.number? = some x ∧ reads = [name] := by
  unfold lookup at h
  cases hv : fs.get? name with
  | none =>
    rw [hv] at h
    cases h
  | some v =>
    cases hx : v.number? with
    | none =>
      simp only [hv, hx] at h
      cases h
    | some y =>
      simp only [hv, hx] at h
      cases h
      exact ⟨v, rfl, hx, rfl⟩

/-- A variable that is bound to a number has that value. -/
theorem lookup_of_get? {fs : Fields} {name : String} {v : Value} {x : Double}
    (hv : fs.get? name = some v) (hx : v.number? = some x) :
    lookup fs name = .ok (x, [name]) := by
  unfold lookup
  simp only [hv, hx]
  rfl

/-! ## Names that are read -/

/-- Whether an evaluation reads no other names than those given if it succeeds. -/
def ReadsOnly (names : List String) (x : Eval α) : Prop :=
  ∀ a reads, x = .ok (a, reads) → ∀ name ∈ reads, name ∈ names

/-- One evaluation after another reads only certain names if both do, and so does what reads nothing. -/
theorem lifts_readsOnly (names : List String) : Lifts fun x _ => ReadsOnly names x where
  silent := by
    intro α x hx a reads h name hname
    rw [hx a reads h] at hname
    cases hname
  bind := by
    intro α β x _ f _ hx hf b reads h name hname
    obtain ⟨a, r, s, hr, hs, rfl⟩ := exists_of_bind_eq_ok h
    rcases List.mem_append.mp hname with hname | hname
    · exact hx a r hr name hname
    · exact hf a b s hs name hname

/-- Looking a variable up reads it alone. -/
theorem readsOnly_lookup {names : List String} (fs : Fields) {name : String}
    (hname : name ∈ names) : ReadsOnly names (lookup fs name) := by
  intro x reads h n hn
  obtain ⟨v, -, -, rfl⟩ := exists_of_lookup_eq_ok h
  rwa [List.mem_singleton.mp hn]

/-- The variables of a formula are those that are among its nodes. -/
theorem mem_variableNames {e : Expr} {name : String} :
    name ∈ e.variableNames ↔ .variable name ∈ e.nodes := by
  rw [Expr.variableNames_eq, mem_firstOccurrences, List.mem_filterMap]
  constructor
  · rintro ⟨n, hn, hname⟩
    cases n <;> cases hname
    exact hn
  · intro h
    exact ⟨.variable name, h, rfl⟩

/-- An evaluation reads variables of the formula only. -/
theorem readsOnly_eval (ev : Evaluator) (fs : Fields) (e : Expr) (s : Stack) :
    ReadsOnly e.variableNames (e.eval ev fs s) :=
  (lifts_readsOnly e.variableNames).eval ev fs fs
    (fun _ hname => readsOnly_lookup fs (mem_variableNames.mpr hname)) s

/-! ## Two runs of one evaluation -/

/-- Whether the fields `gs` have what `fs` have under each of the names that they have at all. -/
def AgreeOn (names : List String) (fs gs : Fields) : Prop :=
  ∀ name ∈ names, gs.has name = true → gs.get? name = fs.get? name

/-- The first of several names that some fields do not have. -/
def firstMissing? (gs : Fields) (names : List String) : Option String :=
  names.find? fun name => !gs.has name

/-- How an evaluation ends that needs the given names: with a result if the fields have all of
them, and otherwise for want of the first that is missing. -/
def outcomeUnder {γ : Type} (gs : Fields) (names : List String) (result : γ) : Except EvalError γ :=
  match firstMissing? gs names with
  | none => .ok result
  | some name => .error (.unknownVariable name (sortTexts gs.names))

/-- Whether the second evaluation, under the fields `gs`, comes out as the first one did under
`fs`, provided that the fields agree on what the first one read. -/
def Replays (fs gs : Fields) (x y : Eval α) : Prop :=
  ∀ a reads, x = .ok (a, reads) → AgreeOn reads fs gs → y = outcomeUnder gs reads (a, reads)

/-- One evaluation after another comes out under other bindings as it did if both do. -/
theorem lifts_replays (fs gs : Fields) : Lifts (Replays fs gs) where
  silent := by
    intro α x hx a reads h _
    rw [h, hx a reads h]
    rfl
  bind := by
    intro α β x y f g hxy hfg b reads h hagree
    obtain ⟨a, r, s, hr, hs, rfl⟩ := exists_of_bind_eq_ok h
    have hy := hxy a r hr fun name hname => hagree name (List.mem_append_left s hname)
    have hg := hfg a b s hs fun name hname => hagree name (List.mem_append_right r hname)
    unfold outcomeUnder firstMissing? at hy hg ⊢
    rw [List.find?_append]
    -- What is missing first is missing in the first part, or else in the second.
    cases hr' : r.find? fun name => !gs.has name with
    | some name =>
      rw [hr'] at hy
      exact bind_of_error hy g
    | none =>
      rw [hr'] at hy
      cases hs' : s.find? fun name => !gs.has name with
      | some name =>
        rw [hs'] at hg
        exact bind_of_ok_error hy hg
      | none =>
        rw [hs'] at hg
        exact bind_of_ok_ok hy hg

/-- Looking a variable up comes out alike under other bindings, provided that they have it. -/
theorem replays_lookup (fs gs : Fields) (name : String) :
    Replays fs gs (lookup fs name) (lookup gs name) := by
  intro x reads h hagree
  obtain ⟨v, hv, hx, rfl⟩ := exists_of_lookup_eq_ok h
  cases hname : gs.has name with
  | true =>
    have hmissing : firstMissing? gs [name] = none := by simp [firstMissing?, hname]
    have hget : gs.get? name = some v := by
      rw [hagree name List.mem_cons_self hname, hv]
    rw [outcomeUnder, hmissing]
    exact lookup_of_get? hget hx
  | false =>
    have hmissing : firstMissing? gs [name] = some name := by simp [firstMissing?, hname]
    rw [outcomeUnder, hmissing]
    exact lookup_of_missing hname

/-- The evaluation of a formula under other fields comes out as it did. -/
theorem replays_eval (ev : Evaluator) (fs gs : Fields) (e : Expr) (s : Stack) :
    Replays fs gs (e.eval ev fs s) (e.eval ev gs s) :=
  (lifts_replays fs gs).eval ev fs gs (fun name _ => replays_lookup fs gs name) s

/-! ## The variables that are used -/

namespace Evaluator

/-- The variables that an evaluation used are some of the formula's, each listed once. Under other
fields that agree on them it comes out the same, or for want of the first that is missing. -/
theorem evaluate_depends_on_used {ev : Evaluator} {e : Expr} {fs : Fields} {out : Outcome}
    (h : ev.evaluate e fs = .ok out) :
    out.used.Nodup ∧ (∀ name ∈ out.used, name ∈ e.variableNames) ∧
      ∀ gs, AgreeOn out.used fs gs → ev.evaluate e gs = outcomeUnder gs out.used out := by
  unfold evaluate at h
  cases hx : e.eval ev fs stack with
  | error err =>
    rw [hx] at h
    cases h
  | ok p =>
    obtain ⟨value, reads⟩ := p
    rw [hx] at h
    cases h
    refine ⟨nodup_firstOccurrences reads, ?_, ?_⟩
    · intro name hname
      exact readsOnly_eval ev fs e stack value reads hx name (mem_firstOccurrences.mp hname)
    · intro gs hagree
      have hreplay := replays_eval ev fs gs e stack value reads hx fun name hname =>
        hagree name (mem_firstOccurrences.mpr hname)
      unfold outcomeUnder firstMissing? at hreplay ⊢
      rw [find?_firstOccurrences, evaluate, hreplay]
      cases reads.find? fun name => !gs.has name with
      | none => rfl
      | some name => rfl

/-- A formula is evaluated under the fields of its bindings. -/
theorem run_formula {ev : Evaluator} {e : Expr} {b : Value} {fs : Fields}
    (hb : bindingsOf b = .ok fs) : ev.run (.formula e) b = ev.evaluate e fs := by
  unfold run
  simp only [hb]
  rfl

/-- The variables that a run used are exactly what it depends on, in the order in which it needs
them. They are some of the formula's variables, each listed once. Bindings that agree on those of
them that they bind give the same value and the same list if they bind all of them, whatever else
they bind or lack; otherwise the run under them fails for want of the first one that is not
bound. -/
theorem run_depends_on_used {ev : Evaluator} {e : Expr} {b : Value} {out : Outcome}
    (h : ev.run (.formula e) b = .ok out) :
    out.used.Nodup ∧ (∀ name ∈ out.used, name ∈ e.variableNames) ∧
      ∃ fs, bindingsOf b = .ok fs ∧
        ∀ b' gs, bindingsOf b' = .ok gs → AgreeOn out.used fs gs →
          ((∀ name ∈ out.used, gs.has name = true) → ev.run (.formula e) b' = .ok out) ∧
          ∀ before name after, out.used = before ++ name :: after →
            (∀ n ∈ before, gs.has n = true) → gs.has name = false →
            ev.run (.formula e) b' = .error (.unknownVariable name (sortTexts gs.names)) := by
  cases hb : bindingsOf b with
  | error err =>
    unfold run at h
    simp only [hb] at h
    cases h
  | ok fs =>
    rw [run_formula hb] at h
    obtain ⟨hnodup, hnames, hother⟩ := evaluate_depends_on_used h
    refine ⟨hnodup, hnames, fs, rfl, ?_⟩
    intro b' gs hb' hagree
    rw [run_formula hb', hother gs hagree, outcomeUnder]
    constructor
    · intro hall
      have hmissing : firstMissing? gs out.used = none := by
        simpa [firstMissing?] using hall
      rw [hmissing]
    · intro before name after hused hbefore hname
      have hmissing : firstMissing? gs out.used = some name := by
        rw [hused, firstMissing?, List.find?_append]
        have hnone : before.find? (fun n => !gs.has n) = none := by
          simpa using hbefore
        rw [hnone, List.find?_cons]
        simp [hname]
      rw [hmissing]

/-- A choice that took its first side under some bindings fails under others for want of the
variable on that side, although the one on the other side is not bound either. -/
theorem run_choice_depends_on_used :
    standard.run (.formula (.choice (.variable "a") (.variable "b") (.variable "c")))
        (.record [("a", .double .one), ("b", .double .zero)]) = .ok ⟨.zero, ["a", "b"]⟩ ∧
      standard.run (.formula (.choice (.variable "a") (.variable "b") (.variable "c")))
        (.record [("a", .double .one), ("d", .null)]) =
          .error (.unknownVariable "b" (sortTexts ["a", "d"])) := by
  have h : standard.run (.formula (.choice (.variable "a") (.variable "b") (.variable "c")))
      (.record [("a", .double .one), ("b", .double .zero)]) = .ok ⟨.zero, ["a", "b"]⟩ := by
    decide +kernel
  obtain ⟨-, -, fs, hfs, hother⟩ := run_depends_on_used h
  cases hfs
  have hagree : AgreeOn ["a", "b"] [("a", .double .one), ("b", .double .zero)]
      [("a", .double .one), ("d", .null)] := by
    intro name hname hbound
    rcases List.mem_pair.mp hname with rfl | rfl
    · rfl
    · cases hbound
  refine ⟨h, (hother _ _ rfl hagree).2 ["a"] "b" [] rfl ?_ rfl⟩
  intro name hname
  rw [List.mem_singleton.mp hname]
  rfl

end Evaluator

end PayrollFormula
