import PayrollFormula.Proofs.Eval.Comparisons
import PayrollFormula.Proofs.Formula.Accepted

/-!
# How deep an evaluation descends

The depth of a formula and its variables are found by loops over the formulas that are still to be
visited, its value by a recursion that may run out of frames. The loops compute what recursions over
the parts would. On a stack of which every node takes one frame, whatever its kind, the frames are
the levels that an evaluation may descend. A depth of which the parser allows no more is a number of
levels that suffices: every evaluation of a formula that was read comes out with `Limits.maxDepth`
levels as it does with more, and as it does on the stack that it really has
(`Expr.traversals_recursive`).
-/

set_option autoImplicit false

namespace PayrollFormula

open Eval

/-- A recursion that takes one frame for every node. -/
def Frames.nodes : Frames := ⟨1, 1, 1, 1, 0, 0⟩

/-- Whether two stacks both have a number of frames, which depends on what the kinds of nodes take of
them. -/
def BothHave (need : Frames → ℕ) (s t : Stack) : Prop :=
  need s.costs ≤ s.free ∧ need t.costs ≤ t.free

namespace BothHave

variable {need more : Frames → ℕ} {s t : Stack}

/-- Stacks that have some frames have fewer as well. -/
theorem mono (h : BothHave need s t) (hmore : ∀ c, more c ≤ need c) : BothHave more s t :=
  ⟨(hmore _).trans h.1, (hmore _).trans h.2⟩

/-- Evaluations that come out the same on stacks that both have some frames do so after a node has
taken its own, if the stacks had those as well. -/
theorem enters (h : BothHave need s t) (cost : Frames → ℕ) (hmore : ∀ c, cost c + more c ≤ need c) :
    Enters (fun x y => x = y) (BothHave more) cost s t := by
  intro α f g hfg
  have hs := (hmore s.costs).trans h.1
  have ht := (hmore t.costs).trans h.2
  rw [Stack.enter_of_le (Nat.le_of_add_right_le hs), Stack.enter_of_le (Nat.le_of_add_right_le ht)]
  exact hfg _ _ ⟨Nat.le_sub_of_add_le' hs, Nat.le_sub_of_add_le' ht⟩

end BothHave

namespace Expr

/-- On all stacks that have the frames for it an evaluation comes out the same, however many frames
the kinds of nodes take on them. -/
theorem eval_eq_of_frames_le {ev : Evaluator} {fs : Fields} {e : Expr} {s t : Stack}
    (h : BothHave (e.frames ·) s t) : e.eval ev fs s = e.eval ev fs t := by
  induction e using Expr.induction generalizing s t with
  | literal x =>
    rw [Expr.eval, Expr.eval]
    exact h.enters (fun _ => 1) (fun _ => (Nat.add_zero 1).le) fun _ _ _ => rfl
  | named name =>
    rw [Expr.eval, Expr.eval]
    exact h.enters (fun _ => 1) (fun _ => (Nat.add_zero 1).le) fun _ _ _ => rfl
  | unary op a iha =>
    rw [Expr.eval, Expr.eval]
    refine h.enters (·.unary) (fun _ => le_rfl) fun s t hst => ?_
    exact lifts_eq.bind (iha hst) fun x => rfl
  | binary op a b iha ihb =>
    rw [Expr.eval, Expr.eval]
    refine h.enters (·.binary) (fun _ => le_rfl) fun s t hst => ?_
    refine lifts_eq.bind (iha (hst.mono fun _ => Nat.le_max_left _ _)) fun x => ?_
    cases op.settled? x with
    | some v => rfl
    | none => exact lifts_eq.bind (ihb (hst.mono fun _ => Nat.le_max_right _ _)) fun y => rfl
  | choice c a b ihc iha ihb =>
    rw [Expr.eval, Expr.eval]
    refine h.enters (·.choice) (fun _ => le_rfl) fun s t hst => ?_
    have hsides := hst.mono fun _ => Nat.le_max_right _ _
    refine lifts_eq.bind (ihc (hst.mono fun _ => Nat.le_max_left _ _)) fun x => ?_
    split_ifs
    · exact iha (hsides.mono fun _ => Nat.le_max_left _ _)
    · exact ihb (hsides.mono fun _ => Nat.le_max_right _ _)
  | call name args ih =>
    -- The stacks have the frames for the loop over the arguments and for the choice function.
    have hcall (c : Frames) : c.call + (max c.each c.asked + greatestFrames c args) ≤
        (call name args).frames c := (Nat.add_assoc _ _ _).ge
    refine lifts_eq.eval_call_of_functions rfl name rfl (h.enters (·.call) hcall)
      (fun s t hst => hst.enters (·.each) fun _ => Nat.add_le_add_right (Nat.le_max_left _ _) _)
      (fun s t hst => hst.enters (·.asked) fun _ => Nat.add_le_add_right (Nat.le_max_right _ _) _)
      fun s t hst => List.forall₂_same.mpr fun a ha => ?_
    exact ih a ha (hst.mono fun _ => frames_le_greatestFrames ha)

/-- The depth of a formula is one more than the greatest depth of a part, and one if it has no
parts. Its variables are those that stand in it from left to right, each where it first occurs. If
the formula was read from a text, no evaluation of it descends more levels than the limits on the
depth allow: with these it does not fail for want of levels, with more it comes out the same, and so
it does on the stack that it runs on, which has four frames for each of them. -/
theorem traversals_recursive (e : Expr) :
    e.depth = 1 + (e.children.map depth).max?.getD 0 ∧
      ListsFirst e.variableNames e.variableLeaves ∧
      ∀ (limits : Limits) (text : String), Formula.parse limits text = .ok e →
        4 * limits.maxDepth ≤ Evaluator.stack.free ∧
          ∀ (ev : Evaluator) (fs : Fields) (k : ℕ), limits.maxDepth ≤ k →
            e.eval ev fs ⟨.nodes, limits.maxDepth⟩ ≠ .error .tooDeep ∧
              e.eval ev fs ⟨.nodes, k⟩ = e.eval ev fs ⟨.nodes, limits.maxDepth⟩ ∧
              e.eval ev fs Evaluator.stack = e.eval ev fs ⟨.nodes, limits.maxDepth⟩ := by
  refine ⟨e.depth_eq, e.listsFirst_variableNames, ?_⟩
  intro limits text hparse
  obtain ⟨-, -, -, hdepth⟩ := Formula.parse_eq_ok_iff_tree.mp hparse
  rw [depth_eq_height] at hdepth
  have hnodes : e.frames .nodes ≤ limits.maxDepth := by
    have hwithin : Frames.nodes.Within 1 := by decide
    exact (e.frames_le hwithin).trans (by rwa [Nat.one_mul])
  have hroom : 4 * limits.maxDepth ≤ Evaluator.stack.free :=
    (Nat.mul_le_mul_left 4 limits.maxDepth_le).trans (by decide)
  refine ⟨hroom, fun ev fs k hk => ⟨eval_ne_tooDeep hnodes, ?_, ?_⟩⟩
  · exact eval_eq_of_frames_le ⟨hnodes.trans hk, hnodes⟩
  · exact eval_eq_of_frames_le ⟨limits.frames_evaluation_le hdepth, hnodes⟩

/-- A choice between two variables, one of which also stands in its condition. It may be nested ten
deep, so ten levels are enough for it, whatever the evaluator and the bindings are. -/
theorem traversals_recursive_choice :
    let limits : Limits := ⟨4096, 10, by decide, by decide, by decide⟩
    let e : Expr := .choice (.call "MAX" [.variable "a", .variable "c"]) (.variable "b")
      (.variable "a")
    Formula.parse limits "MAX(a, c) ? b : a" = .ok e ∧
      e.depth = 1 + (e.children.map depth).max?.getD 0 ∧
      ListsFirst e.variableNames ["a", "c", "b", "a"] ∧
      ∀ (ev : Evaluator) (fs : Fields), e.eval ev fs ⟨.nodes, 10⟩ ≠ .error .tooDeep := by
  intro limits e
  have hparse : Formula.parse limits "MAX(a, c) ? b : a" = .ok e := by
    rw [Formula.parse_eq_ok_iff_tree, depth_eq_height]
    exact ⟨by decide, by decide, by rfl, by decide⟩
  obtain ⟨hdepth, hnames, hlevels⟩ := traversals_recursive e
  refine ⟨hparse, hdepth, hnames, fun ev fs => ?_⟩
  obtain ⟨-, heval⟩ := hlevels limits _ hparse
  exact (heval ev fs 10 le_rfl).1

end Expr

end PayrollFormula
