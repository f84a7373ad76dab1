import PayrollFormula.Check.Validation
import PayrollFormula.Proofs.Formula.Accepted
import PayrollFormula.Proofs.Formula.Positions

/-!
# All issues of a formula

A text that cannot be read has this as its only issue. Otherwise the issues of its calls are listed
in the order of their positions, so that a call comes before its arguments and the same mistake made
twice is listed twice; behind them every variable that will not be bound is listed once
(`Formula.check_lists_issues`).
-/

set_option autoImplicit false

namespace PayrollFormula

/-- When an issue is one of a call, given how many arguments each function takes. -/
inductive CallIssue (arities : String → Option ℕ) : Expr → Issue → Prop where
  | unknown (name : String) (args : List Expr) (h : arities name = none) :
      CallIssue arities (.call name args) (.unknownFunction name)
  | count (name : String) (args : List Expr) (n : ℕ) (h : arities name = some n)
      (hne : args.length ≠ n) : CallIssue arities (.call name args) (.arity name n args.length)

namespace Expr

variable {arities : String → Option ℕ}

/-- A node has an issue exactly if it is a call that has it. -/
theorem callIssue?_eq_some_iff {e : Expr} {i : Issue} :
    e.callIssue? arities = some i ↔ CallIssue arities e i := by
  constructor
  · intro h
    cases e with
    | call name args =>
      rw [callIssue?] at h
      cases hname : arities name with
      | none =>
        rw [hname] at h
        cases h
        exact .unknown name args hname
      | some n =>
        rw [hname] at h
        by_cases hcount : args.length = n
        · simp [hcount] at h
        · simp only [if_neg hcount, Option.some.injEq] at h
          subst h
          exact .count name args n hname hcount
    | _ => cases h
  · rintro (⟨name, args, h⟩ | ⟨name, args, n, h, hne⟩)
    · simp only [callIssue?, h]
    · simp only [callIssue?, h, if_neg hne]

/-- The issues of calls are listed part by part, in the order in which the calls stand. -/
theorem listsParts_callIssues (arities : String → Option ℕ) (e : Expr) :
    ListsParts (CallIssue arities) e (e.callIssues arities) := by
  have h := listsParts_filterMap_nodes (callIssue? arities) e
  simp only [callIssue?_eq_some_iff] at h
  exact h

/-- With known names given, there is an issue for every variable that is none of them. -/
theorem variableIssues_some (names : List String) (e : Expr) :
    e.variableIssues (some names) =
      (e.variableNames.filter (· ∉ names)).map .unknownVariable := by
  simp [variableIssues]

end Expr

namespace Formula

/-- The issues of a text, whatever functions and variables there are. A text is valid exactly if it
has none. If it is not a formula, the one issue is the reason, with its wording and position, and no
variables are given. If it is, the issues are those of the calls at all positions of the formula, in
the order of the positions, and then one for every variable of it that will not be bound, in the
order of their first occurrence. -/
theorem check_lists_issues (limits : Limits) (arities : String → Option ℕ)
    (known : Option (List String)) (text : Value) :
    ((check limits arities known text).valid = true ↔
        (check limits arities known text).issues = []) ∧
      (∀ err, parseValue limits text = .error err →
        ∃ i, check limits arities known text = ⟨[i], []⟩ ∧ i.code = "syntax_error" ∧
          i.message = err.message ∧ i.position = err.position) ∧
      ∀ e, parseValue limits text = .ok e →
        ∃ calls, e.ListsParts (CallIssue arities) calls ∧
          (known = none → check limits arities known text = ⟨calls, e.variableNames⟩) ∧
          ∀ names, known = some names → check limits arities known text =
            ⟨calls ++ (e.variableNames.filter (· ∉ names)).map .unknownVariable,
              e.variableNames⟩ := by
  refine ⟨List.isEmpty_iff, fun err herr => ?_, fun e he => ?_⟩
  · exact ⟨.text err, by rw [check, herr], rfl, rfl, rfl⟩
  · have hcheck : check limits arities known text = e.validate arities known := by
      rw [check, he]
    refine ⟨e.callIssues arities, e.listsParts_callIssues arities, ?_, ?_⟩
    · rintro rfl
      rw [hcheck, Expr.validate, Expr.variableIssues, List.append_nil]
    · rintro names rfl
      rw [hcheck, Expr.validate, Expr.variableIssues_some]

/-- Two calls of an unknown function, one inside the other, and next to it a call with too few
arguments. -/
theorem check_lists_issues_nested :
    let e : Expr := .call "FOO" [.call "FOO" [.variable "b"], .call "MIN" [.variable "a"]]
    parseValue .standard (.text "FOO(FOO(b), MIN(a))") = .ok e ∧
      ∃ calls, e.ListsParts (CallIssue (Builtin.arities Builtin.all)) calls ∧
        check .standard (Builtin.arities Builtin.all) (some ["a"]) (.text "FOO(FOO(b), MIN(a))") =
          ⟨calls ++ [.unknownVariable "b"], ["b", "a"]⟩ := by
  intro e
  have hparse : parseValue .standard (.text "FOO(FOO(b), MIN(a))") = .ok e := by
    rw [parseValue, parse_eq_ok_iff_tree, Expr.depth_eq_height]
    exact ⟨by decide, by decide, by rfl, by decide⟩
  have hnames : e.variableNames = ["b", "a"] := by
    rw [Expr.variableNames_eq, Expr.filterMap_variableName?_nodes]
    decide
  refine ⟨hparse, ?_⟩
  obtain ⟨-, -, hlisted⟩ := check_lists_issues .standard (Builtin.arities Builtin.all) (some ["a"])
    (.text "FOO(FOO(b), MIN(a))")
  obtain ⟨calls, hcalls, -, hcheck⟩ := hlisted e hparse
  refine ⟨calls, hcalls, ?_⟩
  rw [hcheck _ rfl, hnames]
  rfl

end Formula

end PayrollFormula
