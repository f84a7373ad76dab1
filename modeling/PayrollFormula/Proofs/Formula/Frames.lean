import PayrollFormula.Eval.Evaluator
import PayrollFormula.Formula.Parse
import PayrollFormula.Proofs.Formula.Trees

/-!
# Frames and heights

A recursion that takes at most `m` frames at every kind of node takes at most `m` frames for every
level of a formula (`Expr.frames_le`). So a limit on the height of formulas is also one on the
frames that evaluating them and writing them out may take.
-/

set_option autoImplicit false

namespace PayrollFormula

namespace Frames

/-- Whether a recursion takes at most so many frames at every kind of node. -/
def Within (c : Frames) (m : Nat) : Prop :=
  1 ≤ m ∧ c.unary ≤ m ∧ c.binary ≤ m ∧ c.choice ≤ m ∧ c.call + max c.each c.asked ≤ m

instance (c : Frames) (m : Nat) : Decidable (c.Within m) :=
  inferInstanceAs (Decidable (_ ∧ _ ∧ _ ∧ _ ∧ _))

/-- The choice function takes most: an evaluation goes at most four frames up for each node. -/
theorem within_evaluation : evaluation.Within 4 := by decide

/-- Writing a formula out goes at most two frames up for each node. -/
theorem within_writing : writing.Within 2 := by decide

end Frames

namespace Expr

variable {c : Frames}

/-- None of several formulas takes more frames than the greatest number among them. -/
theorem frames_le_greatestFrames {a : Expr} {es : List Expr} (h : a ∈ es) :
    a.frames c ≤ greatestFrames c es := by
  induction es with
  | nil => cases h
  | cons e es ih =>
    rw [greatestFrames]
    rcases List.mem_cons.mp h with rfl | h
    · exact Nat.le_max_left _ _
    · exact Nat.le_trans (ih h) (Nat.le_max_right _ _)

/-- The greatest number of frames is at most what each of several formulas takes at most. -/
theorem greatestFrames_le {es : List Expr} {n : Nat} (h : ∀ a ∈ es, a.frames c ≤ n) :
    greatestFrames c es ≤ n := by
  induction es with
  | nil => exact Nat.zero_le n
  | cons e es ih =>
    rw [greatestFrames]
    exact Nat.max_le.mpr ⟨h e List.mem_cons_self, ih fun a ha => h a (List.mem_cons_of_mem e ha)⟩

/-- A recursion takes at most `m` frames at a node and then those of one of its parts. -/
theorem frames_le_children {m : Nat} (hc : c.Within m) (e : Expr) :
    e.frames c ≤ m + greatestFrames c e.children := by
  obtain ⟨hm, hunary, hbinary, hchoice, hcall⟩ := hc
  cases e <;> simp only [frames, children, greatestFrames] <;> omega

/-- A recursion that takes at most `m` frames at every node takes at most `m` times as many as the
formula is high. -/
theorem frames_le {m : Nat} (hc : c.Within m) (e : Expr) : e.frames c ≤ m * e.height := by
  induction e using Expr.induction_children with
  | h e ih =>
    have hparts : greatestFrames c e.children ≤ m * greatestHeight e.children :=
      greatestFrames_le fun a ha =>
        Nat.le_trans (ih a ha) (Nat.mul_le_mul_left m (height_le_greatestHeight ha))
    calc e.frames c ≤ m + greatestFrames c e.children := frames_le_children hc e
      _ ≤ m + m * greatestHeight e.children := Nat.add_le_add_left hparts m
      _ = m * e.height := by rw [height_eq, Nat.mul_succ, Nat.add_comm]

end Expr

/-- A formula of a depth within limits takes at most `m` frames for each of at most `maxDepthLimit`
levels. -/
theorem Limits.frames_le (limits : Limits) {c : Frames} {m : Nat} (hc : c.Within m) {e : Expr}
    (h : e.height ≤ limits.maxDepth) : e.frames c ≤ m * maxDepthLimit :=
  calc e.frames c ≤ m * e.height := e.frames_le hc
    _ ≤ m * maxDepthLimit := Nat.mul_le_mul_left m (Nat.le_trans h limits.maxDepth_le)

/-- A formula of a depth within limits takes no more frames than an evaluation has. -/
theorem Limits.frames_evaluation_le (limits : Limits) {e : Expr} (h : e.height ≤ limits.maxDepth) :
    e.frames .evaluation ≤ Evaluator.stack.free :=
  Nat.le_trans (limits.frames_le Frames.within_evaluation h) (by decide)

end PayrollFormula
