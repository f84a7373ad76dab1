import PayrollFormula.Proofs.Eval.Comparisons
import PayrollFormula.Proofs.Number.Rounding

/-!
# The rounding function

The function that rounds is exact on every finite double: it rounds the decimal number that the
double is written as, a half going away from zero, and gives the double nearest to that
(`Builtin.apply_round`). In formulas this makes it a projection that keeps order and signs
(`Evaluator.run_rounding`).
-/

set_option autoImplicit false

namespace PayrollFormula

open Eval

/-- The double next to 2.675, which is below it. -/
def Finite.halfCent : Finite := ⟨false, 4613205983301625446, by decide⟩

/-- The number two. -/
def Finite.two : Finite := ⟨false, 1024 * Rank.binade, by decide⟩

/-- Two is a number of decimal places. -/
theorem Finite.isPlaces_two : two.IsPlaces 2 := by
  refine ⟨?_, by decide, by decide⟩
  rw [toRat_eq_intCast_iff]
  decide +kernel

/-- One and a half is no number of decimal places. -/
theorem Finite.not_isPlaces_oneAndHalf (places : ℤ) : ¬oneAndHalf.IsPlaces places := by
  intro h
  have hwhole : oneAndHalf.isWhole = true := isWhole_iff.mpr ⟨places, h.value⟩
  revert hwhole
  decide +kernel

namespace Builtin

/-! ## One rounding -/

/-- Whether rounding a finite double to decimal places gives a double, namely the one nearest to the
exactly rounded value of its text, which has few enough digits. -/
def RoundsExactly (v p : Finite) (places : ℤ) : Prop :=
  ∃ (d : ℚ) (m : ℤ) (y : Finite),
    (Decimal.read? v.text).bind Decimal.toRat? = some d ∧
      IsNearestMultiple (10 ^ (-places)) d (m * 10 ^ (-places)) ∧
      m.natAbs < 10 ^ Numeral.maxDigits ∧
      round.apply [.finite v, .finite p] = .ok (.finite y) ∧
      y.IsNearest (m * 10 ^ (-places)) ∧ y.negative = v.negative

/-- Whether rounding a finite double is refused by the function. -/
def RefusesToRound (v p : Finite) : Prop :=
  ∃ e, round.apply [.finite v, .finite p] = .error (.call e) ∧
    e = (if p.isWhole then .placesOutOfRange else .placesNotWhole) ∧ e.functionName = "ROUND" ∧
    (EvalError.call e).kind = "FunctionError"

/-- Rounding a finite double to at most fifteen decimal places succeeds and is exact, and any other
number of places is refused. -/
theorem apply_round (v p : Finite) :
    (∀ places, p.IsPlaces places → RoundsExactly v p places) ∧
      ((∀ places, ¬p.IsPlaces places) → RefusesToRound v p) := by
  constructor
  · intro places h
    have hmultiple := (Numeral.shortest v.rank).isNearestMultiple_toPlaces places v.negative
    have hnearest := v.isNearest_rounded h.natAbs_le
    obtain ⟨m, hm, -, hdigits⟩ := exists_signedRat_mul v.negative
      ((Numeral.shortest v.rank).toPlaces places).coefficient (10 ^ (-places))
    have hvalue : signedRat v.negative ((Numeral.shortest v.rank).toPlaces places).toRat =
        m * 10 ^ (-places) := by
      rw [Numeral.toRat, Numeral.exponent_toPlaces]
      exact_mod_cast hm
    rw [hvalue] at hmultiple hnearest
    refine ⟨_, m, v.rounded h.natAbs_le, v.toRat?_read?_text, hmultiple, ?_,
      roundTo_of_isPlaces v h, hnearest, rfl⟩
    rw [hdigits, Int.natAbs_natCast]
    exact Numeral.coefficient_toPlaces_shortest_lt v.rank_lt h.natAbs_le
  · intro h
    refine ⟨_, roundTo_of_not_isPlaces (.finite v) h, rfl, ?_, rfl⟩
    split_ifs <;> rfl

/-- Half a cent is rounded to two places, and not to one and a half. -/
theorem apply_round_halfCent :
    (Finite.two.IsPlaces 2 ∧ RoundsExactly .halfCent .two 2) ∧
      (∀ places, ¬Finite.oneAndHalf.IsPlaces places) ∧ RefusesToRound .halfCent .oneAndHalf :=
  ⟨⟨Finite.isPlaces_two, (apply_round _ _).1 2 Finite.isPlaces_two⟩,
    Finite.not_isPlaces_oneAndHalf, (apply_round _ _).2 Finite.not_isPlaces_oneAndHalf⟩

end Builtin

/-! ## Roundings in formulas -/

/-- The call that rounds one formula to the places that another one says. -/
def Expr.rounding (a p : Expr) : Expr := .call Builtin.round.name [a, p]

/-- A rounding has the rounded value of its first operand, three frames further down the stack than
its operands. -/
theorem Expr.eval_rounding {ev : Evaluator} (hround : .round ∈ ev.functions) {fs : Fields} {k : ℕ}
    {a q : Expr} {x p : Finite} {rs ss : List String}
    (ha : a.eval ev fs ⟨.evaluation, k⟩ = .ok (.finite x, rs))
    (hq : q.eval ev fs ⟨.evaluation, k⟩ = .ok (.finite p, ss)) {places : ℤ} (hp : p.IsPlaces places) :
    (rounding a q).eval ev fs ⟨.evaluation, k + 3⟩ =
      .ok (.finite (x.rounded hp.natAbs_le), rs ++ ss) := by
  have hargs : evalAll ev fs [a, q] ⟨.evaluation, k⟩ = .ok ([.finite x, .finite p], rs ++ ss) := by
    have hreads : rs ++ ss = rs ++ (ss ++ ([] ++ []) ++ []) := by simp
    rw [hreads]
    exact bind_of_ok_ok ha (bind_of_ok_ok (bind_of_ok_ok hq rfl) rfl)
  have hvalue : (Eval.ofExcept EvalError.ofFailure (Builtin.round.apply [.finite x, .finite p]) >>=
      Eval.finiteOr (.notFinite Builtin.round.name)) =
        .ok (.finite (x.rounded hp.natAbs_le), []) := by
    rw [Builtin.apply, Builtin.roundTo_of_isPlaces x hp]
    rfl
  have hcount : [a, q].length = Builtin.round.arity := rfl
  have hreads : rs ++ ss = rs ++ ss ++ [] := by simp
  rw [hreads, rounding, Expr.eval, Stack.enter_of_le (Nat.le_add_left 2 (k + 1))]
  simp only [Builtin.find?_of_mem hround, hcount, ne_eq, not_true_eq_false, if_false]
  rw [Stack.enter_of_le (Nat.le_add_left 1 k)]
  exact bind_of_ok_ok hargs hvalue

namespace Evaluator

/-- Whether a formula comes out as a finite double without reading a variable. -/
def Gives (ev : Evaluator) (bindings : Value) (e : Expr) (x : Finite) : Prop :=
  ev.run (.formula e) bindings = .ok ⟨.finite x, []⟩

/-- How two numbers are rounded to the same places in formulas: again without a change, in their
order, and together with their signs. -/
structure RoundsInOrder (ev : Evaluator) (bindings : Value) (x y p x' y' : Finite) : Prop where
  left : ev.Gives bindings (.rounding (.literal x) (.literal p)) x'
  right : ev.Gives bindings (.rounding (.literal y) (.literal p)) y'
  again : ev.Gives bindings (.rounding (.rounding (.literal x) (.literal p)) (.literal p)) x'
  ordered : x.toRat ≤ y.toRat → x'.toRat ≤ y'.toRat
  opposite : ev.Gives bindings (.rounding (.literal x.neg) (.literal p)) x'.neg
  negated : ev.Gives bindings (.rounding (.unary .neg (.literal x)) (.literal p)) x'.neg
  negation : ev.Gives bindings (.unary .neg (.rounding (.literal x) (.literal p))) x'.neg

/-- Rounding is a projection that keeps the order and the signs of all finite doubles. -/
theorem run_rounding {ev : Evaluator} (hround : .round ∈ ev.functions) {bindings : Value}
    {fs : Fields} (hb : bindingsOf bindings = .ok fs) (x y : Finite) {p : Finite} {places : ℤ}
    (hp : p.IsPlaces places) : ∃ x' y', ev.RoundsInOrder bindings x y p x' y' := by
  have hliteral (z : Finite) (k : ℕ) :
      (Expr.literal z).eval ev fs ⟨.evaluation, k + 1⟩ = .ok (.finite z, []) :=
    Expr.eval_literal (Nat.le_add_left 1 k)
  have hrounded {a : Expr} {z : Finite} {k : ℕ}
      (ha : a.eval ev fs ⟨.evaluation, k + 1⟩ = .ok (.finite z, [])) :
      (Expr.rounding a (.literal p)).eval ev fs ⟨.evaluation, k + 4⟩ =
        .ok (.finite (z.rounded hp.natAbs_le), []) :=
    Expr.eval_rounding hround ha (hliteral p k) hp
  have hneg {a : Expr} {z : Finite} {k : ℕ}
      (ha : a.eval ev fs ⟨.evaluation, k⟩ = .ok (.finite z, [])) :
      (Expr.unary .neg a).eval ev fs ⟨.evaluation, k + 1⟩ = .ok (.finite z.neg, []) := by
    rw [Expr.eval, Stack.enter_of_le (Nat.le_add_left 1 k)]
    exact bind_of_ok_ok ha rfl
  refine ⟨x.rounded hp.natAbs_le, y.rounded hp.natAbs_le, ?_⟩
  exact {
    left := run_of_eval_eq_ok hb (hrounded (hliteral x _))
    right := run_of_eval_eq_ok hb (hrounded (hliteral y _))
    again := by
      have h := run_of_eval_eq_ok hb (hrounded (hrounded (hliteral x _)))
      rwa [Finite.rounded_rounded] at h
    ordered := Finite.rounded_mono hp.natAbs_le
    opposite := by
      have h := run_of_eval_eq_ok hb (hrounded (hliteral x.neg _))
      rwa [Finite.rounded_neg] at h
    negated := by
      have h := run_of_eval_eq_ok hb (hrounded (hneg (hliteral x _)))
      rwa [Finite.rounded_neg] at h
    negation := run_of_eval_eq_ok hb (hneg (hrounded (hliteral x _))) }

/-- One and a half and half a cent more than 2.67 keep their order when rounded to cents. -/
theorem run_rounding_cents :
    .round ∈ standard.functions ∧ bindingsOf .null = .ok [] ∧ Finite.two.IsPlaces 2 ∧
      Finite.oneAndHalf.toRat ≤ Finite.halfCent.toRat ∧
      ∃ x' y', standard.RoundsInOrder .null .oneAndHalf .halfCent .two x' y' ∧
        x'.toRat ≤ y'.toRat := by
  have hround : .round ∈ standard.functions := by decide
  have hle : Finite.oneAndHalf.toRat ≤ Finite.halfCent.toRat := by
    rw [Finite.toRat_le_iff]
    decide +kernel
  obtain ⟨x', y', h⟩ := @run_rounding standard hround .null [] rfl .oneAndHalf .halfCent _ _
    Finite.isPlaces_two
  exact ⟨hround, rfl, Finite.isPlaces_two, hle, x', y', h, h.ordered hle⟩

end Evaluator

end PayrollFormula
