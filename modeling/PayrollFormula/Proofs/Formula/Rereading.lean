import PayrollFormula.Proofs.Eval.Dependency
import PayrollFormula.Proofs.Eval.Related
import PayrollFormula.Proofs.Formula.Built
import PayrollFormula.Proofs.Formula.Frames
import PayrollFormula.Proofs.Formula.RoundTrip

/-!
# The meaning of the canonical text

A number below zero is written with a minus sign and read back as the negation of its magnitude, so
a built formula and the tree of its canonical text may differ. They have the same canonical text
(`text_reread`), and no evaluation tells them apart (`related_eval_reread`): what a sign changes is
the sign of zero at most, and operations do not show it.
-/

set_option autoImplicit false

namespace PayrollFormula

open Eval

namespace Finite

/-- A number below zero is the negation of its magnitude. -/
theorem neg_abs_of_ticks_neg {x : Finite} (h : x.ticks < 0) : x.abs.neg = x := by
  have hsign : x.negative = true := (ticks_neg_iff.mp h).1
  obtain ⟨negative, rank, hrank⟩ := x
  obtain rfl : negative = true := hsign
  rfl

/-- A number that is not below zero agrees with its magnitude. -/
theorem agrees_abs {x : Finite} (h : ¬x.ticks < 0) :
    (Double.finite x).Agrees (.finite x.abs) := by
  by_cases hrank : x.rank = 0
  · rw [eq_zeroOf hrank]
    exact Double.agrees_zeroOf _ false
  · have hsign : x.negative = false := by
      rw [ticks_neg_iff] at h
      simpa [hrank] using h
    obtain ⟨negative, rank, hlt⟩ := x
    obtain rfl : negative = false := hsign
    exact .refl _

/-- A number that is not negative has no sign. -/
theorem signed_false (cs : List Char) : signed false cs = cs := rfl

/-- A negative number has a minus sign. -/
theorem signed_true (cs : List Char) : signed true cs = '-' :: cs := rfl

/-- The sign does not count for the magnitude. -/
theorem magnitude_abs (x : Finite) : x.abs.magnitude = x.magnitude := rfl

/-- The text of a number inside a formula is that of its magnitude, with a minus sign before it if
the number is below zero. -/
theorem toList_formulaText (x : Finite) :
    x.formulaText.toList = signed (x.ticks < 0) x.abs.formulaText.toList := by
  have hrank : x.abs.rank = x.rank := rfl
  have hsign : x.abs.negative = false := rfl
  have habs : decide (x.abs.ticks < 0) = false :=
    decide_eq_false (Int.not_lt.mpr x.ticks_abs_nonneg)
  have hshort : x.abs.isShortInteger = x.isShortInteger := by
    rw [isShortInteger, isShortInteger, isWhole, isWhole, magnitude_abs]
  rw [formulaText, formulaText, hshort, magnitude_abs, habs, signed_false, text, text, hrank, hsign,
    signed_false]
  split_ifs with h
  · rw [String.toList_ofList, String.toList_ofList]
  · rw [String.toList_ofList, String.toList_ofList, x.ticks_neg_eq_negative h]

end Finite

namespace Expr

/-! ## The height of the tree -/

/-- If each of several formulas grows by at most one level, the highest one does. -/
theorem greatestHeight_map_bounds {f : Expr → Expr} {es : List Expr}
    (h : ∀ e ∈ es, e.height ≤ (f e).height ∧ (f e).height ≤ e.height + 1) :
    greatestHeight es ≤ greatestHeight (es.map f) ∧
      greatestHeight (es.map f) ≤ greatestHeight es + 1 := by
  constructor
  · refine greatestHeight_le fun a ha => (h a ha).1.trans ?_
    exact height_le_greatestHeight (List.mem_map_of_mem ha)
  · refine greatestHeight_le (List.forall_mem_map.mpr fun a ha => (h a ha).2.trans ?_)
    exact Nat.succ_le_succ (height_le_greatestHeight ha)

/-- The tree of the canonical text is as high as the formula, or higher by one. -/
theorem height_reread_bounds (e : Expr) :
    e.height ≤ e.reread.height ∧ e.reread.height ≤ e.height + 1 := by
  induction e using Expr.induction with
  | literal x =>
    rw [reread]
    split_ifs <;> simp [height]
  | named name => simp [reread]
  | unary op a iha =>
    simp only [reread, height]
    omega
  | binary op a b iha ihb =>
    simp only [reread, height]
    omega
  | choice c a b ihc iha ihb =>
    simp only [reread, height]
    omega
  | call name args ih =>
    have hargs := greatestHeight_map_bounds ih
    simp only [reread, callNamed, height, rereadAll_eq_map]
    omega

/-! ## The canonical text of the tree -/

/-- A formula that is read again binds as it did. -/
theorem level_reread (e : Expr) : e.reread.level = e.level := by
  cases e with
  | literal x =>
    simp only [reread, level]
    split_ifs with h
    · rfl
    · simp only [if_neg (Int.not_lt.mpr x.ticks_abs_nonneg)]
  | _ => rfl

/-- A literal below zero is written as the negation of its magnitude. -/
theorem chars_literal_of_neg {x : Finite} (h : x.ticks < 0) :
    (unary .neg (literal x.abs)).chars = (literal x).chars := by
  have hlevel : (literal x.abs).level = 9 := by
    rw [level, if_neg (Int.not_lt.mpr x.ticks_abs_nonneg)]
  have hguarded (cs : List Char) : guarded UnaryOp.neg.level 9 cs = cs := if_neg (by decide)
  have hmark (cs : List Char) : unaryMark .neg ++ cs = '-' :: cs := rfl
  rw [chars, chars, chars, hlevel, hguarded, hmark, x.toList_formulaText, decide_eq_true h,
    Finite.signed_true]

/-- Arguments that are written as before make the same list. -/
theorem argChars_map {f : Expr → Expr} {es : List Expr} (h : ∀ e ∈ es, (f e).chars = e.chars) :
    argChars (es.map f) = argChars es := by
  induction es with
  | nil => rfl
  | cons e es ih =>
    have he := h e List.mem_cons_self
    have hes := ih fun a ha => h a (List.mem_cons_of_mem e ha)
    cases es with
    | nil => simp only [List.map_cons, List.map_nil, argChars, he]
    | cons a es =>
      simp only [List.map_cons, argChars, he] at hes ⊢
      rw [hes]

/-- The tree of the canonical text has the canonical text. -/
theorem chars_reread {e : Expr} (h : e.Everywhere IsUpperNamed) : e.reread.chars = e.chars := by
  induction e using Expr.induction with
  | literal x =>
    rw [reread]
    split_ifs with hx
    · exact chars_literal_of_neg hx
    · rw [chars, chars, x.toList_formulaText, decide_eq_false hx, Finite.signed_false]
  | named name => rfl
  | unary op a iha =>
    have ha := ((everywhere_unary _ _ _).mp h).2
    rw [reread, chars, chars, level_reread, iha ha]
  | binary op a b iha ihb =>
    obtain ⟨-, ha, hb⟩ := (everywhere_binary _ _ _ _).mp h
    rw [reread, chars, chars, level_reread, level_reread, iha ha, ihb hb]
  | choice c a b ihc iha ihb =>
    obtain ⟨-, hc, ha, hb⟩ := (everywhere_choice _ _ _ _).mp h
    rw [reread, chars, chars, level_reread, ihc hc, iha ha, ihb hb]
  | call name args ih =>
    obtain ⟨hname, hargs⟩ := (everywhere_call _ _ _).mp h
    have hupper : upperCase name = name := hname
    rw [reread, callNamed, hupper, chars, chars, rereadAll_eq_map,
      argChars_map fun a ha => ih a ha (hargs a ha)]

/-- A formula that is read again is written as before, if its functions are named in upper case. -/
theorem text_reread {e : Expr} (h : e.Everywhere IsUpperNamed) : e.reread.text = e.text :=
  congrArg String.ofList (chars_reread h)

/-! ## The value of the tree -/

/-- A formula and the tree of its canonical text are evaluated alike, if there are frames enough for
both. -/
theorem related_eval_reread (ev : Evaluator) (fs : Fields) {e : Expr}
    (h : e.Everywhere IsUpperNamed) {s : Stack} (he : e.frames s.costs ≤ s.free)
    (hr : e.reread.frames s.costs ≤ s.free) :
    Related Double.Matches (e.eval ev fs s) (e.reread.eval ev fs s) := by
  induction e using Expr.induction generalizing s with
  | literal x =>
    rw [reread] at hr ⊢
    have hone : 1 ≤ s.free := he
    rw [Expr.eval, Stack.enter_of_le hone]
    split_ifs at hr ⊢ with hx
    · rw [frames, frames] at hr
      have hliteral : 1 ≤ s.free - s.costs.unary := Nat.le_sub_of_add_le' hr
      rw [Expr.eval, Stack.enter_of_le (Nat.le_of_add_right_le hr), Expr.eval,
        Stack.enter_of_le hliteral]
      have hneg : (Double.finite x).Matches (.finite x.abs.neg) := by
        rw [Finite.neg_abs_of_ticks_neg hx]
        exact .refl rfl
      exact related_pure hneg
    · rw [Expr.eval, Stack.enter_of_le hone]
      exact related_pure ⟨rfl, Finite.agrees_abs hx⟩
  | named name =>
    rw [reread, Expr.eval]
    exact related_enter (related_lookup fs name)
  | unary op a iha =>
    have ha := ((everywhere_unary _ _ _).mp h).2
    rw [reread, frames] at hr
    rw [frames] at he
    rw [reread, Expr.eval, Expr.eval]
    refine related_enter ((iha ha ?_ ?_).bind fun x y hxy => related_pure (op.related_apply hxy))
    · exact Nat.le_sub_of_add_le' he
    · exact Nat.le_sub_of_add_le' hr
  | binary op a b iha ihb =>
    obtain ⟨-, ha, hb⟩ := (everywhere_binary _ _ _ _).mp h
    rw [reread, frames] at hr
    rw [frames] at he
    rw [reread, Expr.eval, Expr.eval]
    have he := max_le_iff.mp (Nat.le_sub_of_add_le' he)
    have hr := max_le_iff.mp (Nat.le_sub_of_add_le' hr)
    refine related_enter ((iha ha he.1 hr.1).bind fun x x' hx => ?_)
    rw [op.settled?_eq hx.agrees]
    cases hsettled : op.settled? x' with
    | some v => exact related_pure (.refl (BinaryOp.isFinite_of_settled? hsettled))
    | none =>
      exact (ihb hb he.2 hr.2).bind fun y y' hy => op.related_apply _ hx.agrees hy.agrees
  | choice c a b ihc iha ihb =>
    obtain ⟨-, hc, ha, hb⟩ := (everywhere_choice _ _ _ _).mp h
    rw [reread, frames] at hr
    rw [frames] at he
    rw [reread, Expr.eval, Expr.eval]
    have he := max_le_iff.mp (Nat.le_sub_of_add_le' he)
    have hr := max_le_iff.mp (Nat.le_sub_of_add_le' hr)
    have he' := max_le_iff.mp he.2
    have hr' := max_le_iff.mp hr.2
    refine related_enter ((ihc hc he.1 hr.1).bind fun x x' hx => ?_)
    rw [hx.agrees.isTrue_eq]
    split_ifs
    · exact iha ha he'.1 hr'.1
    · exact ihb hb he'.2 hr'.2
  | call name args ih =>
    obtain ⟨hname, hargs⟩ := (everywhere_call _ _ _).mp h
    have hupper : upperCase name = name := hname
    rw [reread, callNamed, hupper, rereadAll_eq_map] at hr ⊢
    rw [frames] at he hr
    refine related_eval_call name (List.length_map _).symm fun n hn => ?_
    refine List.forall₂_map_right_iff.mpr (List.forall₂_same.mpr fun a ha => ?_)
    have hpart := frames_le_greatestFrames (c := s.costs) ha
    have hpart' := frames_le_greatestFrames (c := s.costs) (List.mem_map_of_mem (f := reread) ha)
    refine ih a ha (hargs a ha) ?_ ?_
    · show a.frames s.costs ≤ s.free - s.costs.call - n
      omega
    · show a.reread.frames s.costs ≤ s.free - s.costs.call - n
      omega

end Expr

/-! ## Runs -/

/-- Whether two runs come out the same: with numbers that are equal and the same variables used, or
with the same failure. -/
inductive SameOutcome : Except EvalError Outcome → Except EvalError Outcome → Prop where
  | value {x y : Double} (used : List String) :
      x.numEq y = true → SameOutcome (.ok ⟨x, used⟩) (.ok ⟨y, used⟩)
  | failure (e : EvalError) : SameOutcome (.error e) (.error e)

/-- Related evaluations have the same outcome. -/
theorem Evaluator.sameOutcome_evaluate {ev : Evaluator} {fs : Fields} {a b : Expr}
    (h : Related Double.Matches (a.eval ev fs stack) (b.eval ev fs stack)) :
    SameOutcome (ev.evaluate a fs) (ev.evaluate b fs) := by
  unfold evaluate
  generalize a.eval ev fs stack = x at h ⊢
  generalize b.eval ev fs stack = y at h ⊢
  cases h with
  | value reads hxy => exact .value _ (hxy.agrees.numEq hxy.isFinite)
  | failure e => exact .failure e

/-- Formulas that have the same outcome under all fields have it under all bindings. -/
theorem Evaluator.sameOutcome_run {ev : Evaluator} {a b : Expr}
    (h : ∀ fs, SameOutcome (ev.evaluate a fs) (ev.evaluate b fs)) (bindings : Value) :
    SameOutcome (ev.run (.formula a) bindings) (ev.run (.formula b) bindings) := by
  cases hb : bindingsOf bindings with
  | ok fs =>
    rw [run_formula hb, run_formula hb]
    exact h fs
  | error e =>
    unfold run
    simp only [hb]
    exact .failure e

namespace Formula

/-- The canonical text of a built formula whose names name something is refused by the limits, or
it is read as a formula that has this canonical text again and comes out the same as the built one
in every run. -/
theorem parse_text_sameOutcome (limits : Limits) {e : Expr} (h : e.Built)
    (hnamed : e.Everywhere Expr.IsNamed) :
    (limits.maxLength < e.text.length ∧
        parse limits e.text = .error (.tooLong limits.maxLength)) ∨
      (∃ d, limits.maxDepth < d ∧ (d = e.depth ∨ d = e.depth + 1) ∧
        parse limits e.text = .error (.tooDeep d limits.maxDepth)) ∨
      ∃ e', parse limits e.text = .ok e' ∧ e'.text = e.text ∧
        ∀ (ev : Evaluator) (bindings : Value),
          SameOutcome (ev.run (.formula e) bindings) (ev.run (.formula e') bindings) := by
  have hupper := h.upperNamed hnamed
  obtain ⟨hlower, hhigher⟩ := e.height_reread_bounds
  obtain ⟨hblank, htree⟩ := tree_text hnamed
  rw [Expr.depth_eq_height]
  by_cases hlength : limits.maxLength < e.text.length
  · refine .inl ⟨hlength, ?_⟩
    rw [← String.length_toList] at hlength
    simp [parse, hblank, hlength]
  · by_cases hdepth : limits.maxDepth < e.reread.depth
    · refine .inr (.inl ⟨e.reread.depth, hdepth, ?_, ?_⟩)
      · rw [Expr.depth_eq_height]
        omega
      · rw [← String.length_toList] at hlength
        simp [parse, hblank, hlength, htree, hdepth]
    · refine .inr (.inr ⟨e.reread, ?_, Expr.text_reread hupper, ?_⟩)
      · exact parse_text hnamed (not_lt.mp hdepth) (not_lt.mp hlength)
      · intro ev bindings
        rw [Expr.depth_eq_height, not_lt] at hdepth
        refine Evaluator.sameOutcome_run (fun fs => ?_) bindings
        apply Evaluator.sameOutcome_evaluate
        exact Expr.related_eval_reread ev fs hupper
          (limits.frames_evaluation_le (hlower.trans hdepth)) (limits.frames_evaluation_le hdepth)

/-- A number below zero to the right of a minus sign. -/
theorem parse_text_one_sub_neg_one :
    ∃ e', parse .standard "1 - -1" = .ok e' ∧ e'.text = "1 - -1" ∧
      ∀ (ev : Evaluator) (bindings : Value),
        SameOutcome (ev.run (.formula (.binary .sub (.literal .one) (.literal Finite.one.neg)))
          bindings) (ev.run (.formula e') bindings) := by
  have hleft : (Expr.literal .one).Built := .number (v := .double (.finite .one)) rfl
  have hright : (Expr.literal Finite.one.neg).Built :=
    .number (v := .double (.finite Finite.one.neg)) rfl
  have hbuilt : (Expr.binary .sub (.literal .one) (.literal Finite.one.neg)).Built :=
    @Expr.Built.binary "-" _ _ _ hleft hright rfl
  have hnamed : (Expr.binary .sub (.literal .one) (.literal Finite.one.neg)).Everywhere
      Expr.IsNamed := by
    simp [Expr.IsNamed]
  have htext : (Expr.binary .sub (.literal .one) (.literal Finite.one.neg)).text = "1 - -1" := by
    decide +kernel
  have hdepth : (Expr.binary .sub (.literal .one) (.literal Finite.one.neg)).depth = 2 :=
    Expr.depth_eq_height _
  rw [← htext]
  obtain ⟨hlong, -⟩ | ⟨d, hdeep, hd, -⟩ | hread := parse_text_sameOutcome .standard hbuilt hnamed
  · rw [htext] at hlong
    exact absurd hlong (by decide)
  · rw [hdepth] at hd
    have hlimit : Limits.standard.maxDepth = 64 := rfl
    omega
  · exact hread

end Formula

end PayrollFormula
