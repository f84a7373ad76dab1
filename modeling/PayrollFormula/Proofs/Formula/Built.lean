import PayrollFormula.Formula.Part
import PayrollFormula.Proofs.Formula.Canonical
import PayrollFormula.Proofs.Text.UpperCase

/-!
# Formulas that can be built

The formulas that the constructors of nodes give when they are handed formulas that were built
before (`Expr.Built`). Their literals may be below zero, and the name of a function is the upper
case of some text. If such a name names something, it is its own upper case
(`Built.upperNamed`).
-/

set_option autoImplicit false

namespace PayrollFormula

namespace Expr

/-- Whether a formula can be built from values, node by node. -/
inductive Built : Expr → Prop where
  | number {v : Value} {e : Expr} : ofValue v = .ok e → Built e
  | named {v : Value} {e : Expr} : ofName v = .ok e → Built e
  | unary {symbol : String} {a e : Expr} :
      Built a → ofUnary symbol (.formula a) = .ok e → Built e
  | binary {symbol : String} {a b e : Expr} :
      Built a → Built b → ofBinary symbol (.formula a) (.formula b) = .ok e → Built e
  | choice {c a b e : Expr} : Built c → Built a → Built b →
      ofChoice (.formula c) (.formula a) (.formula b) = .ok e → Built e
  | call {v : Value} {args : List Expr} {e : Expr} :
      (∀ a ∈ args, Built a) → ofCall v (args.map .formula) = .ok e → Built e

/-- Whether a function is named by the upper case of a text. -/
def IsCapitalised : Expr → Prop
  | .call name _ => ∃ s, name = upperCase s
  | _ => True

/-- Whether a function is named by a text that is its own upper case. -/
def IsUpperNamed : Expr → Prop
  | .call name _ => upperCase name = name
  | _ => True

/-! ## What the constructors give -/

/-- What is built of a number is a literal. -/
theorem exists_of_ofValue {v : Value} {e : Expr} (h : ofValue v = .ok e) : ∃ x, e = .literal x := by
  unfold ofValue at h
  -- With the conversion in place, the comparison of two matches on its result would compute it.
  obtain ⟨nearest, hnearest⟩ : ∃ f, f = Double.ofInt := ⟨_, rfl⟩
  rw [← hnearest] at h
  clear hnearest
  cases v with
  | double x =>
    cases x with
    | finite x =>
      cases h
      exact ⟨x, rfl⟩
    | infinite | nan => cases h
  | int i =>
    dsimp only at h
    generalize nearest i = x at h
    cases x with
    | error err => cases h
    | ok x =>
      cases x with
      | finite x =>
        cases h
        exact ⟨x, rfl⟩
      | infinite | nan => cases h
  | _ => cases h

/-- What is built of a name is a variable. -/
theorem exists_of_ofName {v : Value} {e : Expr} (h : ofName v = .ok e) :
    ∃ name, e = .variable name := by
  cases v with
  | text s =>
    simp only [ofName] at h
    split_ifs at h
    cases h
    exact ⟨s, rfl⟩
  | _ => cases h

/-- What is built of a symbol and a formula is a unary operation on it. -/
theorem exists_of_ofUnary {symbol : String} {a e : Expr}
    (h : ofUnary symbol (.formula a) = .ok e) : ∃ op, e = .unary op a := by
  unfold ofUnary at h
  cases hop : UnaryOp.ofSymbol? symbol with
  | none =>
    rw [hop] at h
    cases h
  | some op =>
    rw [hop] at h
    cases h
    exact ⟨op, rfl⟩

/-- What is built of a symbol and two formulas is a binary operation on them. -/
theorem exists_of_ofBinary {symbol : String} {a b e : Expr}
    (h : ofBinary symbol (.formula a) (.formula b) = .ok e) : ∃ op, e = .binary op a b := by
  unfold ofBinary at h
  cases hop : BinaryOp.ofSymbol? symbol with
  | none =>
    rw [hop] at h
    cases h
  | some op =>
    rw [hop] at h
    cases h
    exact ⟨op, rfl⟩

/-- What is built of three formulas is the choice of them. -/
theorem eq_choice_of_ofChoice {c a b e : Expr}
    (h : ofChoice (.formula c) (.formula a) (.formula b) = .ok e) : e = .choice c a b := by
  cases h
  rfl

/-- Formulas are accepted as arguments. -/
theorem argsOf_formulas (i : ℕ) (args : List Expr) : argsOf i (args.map .formula) = .ok args := by
  induction args generalizing i with
  | nil => rfl
  | cons a args ih =>
    rw [List.map_cons, argsOf, ih]
    rfl

/-- What is built of a name and formulas is a call of the name in upper case. -/
theorem exists_of_ofCall {v : Value} {args : List Expr} {e : Expr}
    (h : ofCall v (args.map .formula) = .ok e) : ∃ s, e = .call (upperCase s) args := by
  cases v with
  | text s =>
    simp only [ofCall, argsOf_formulas] at h
    split_ifs at h
    cases h
    exact ⟨s, rfl⟩
  | _ => cases h

/-! ## Built formulas -/

/-- The functions of a formula that was built have names in upper case. -/
theorem Built.capitalised {e : Expr} (h : e.Built) : e.Everywhere IsCapitalised := by
  induction h with
  | number h =>
    obtain ⟨x, rfl⟩ := exists_of_ofValue h
    exact (everywhere_literal _ x).mpr trivial
  | named h =>
    obtain ⟨name, rfl⟩ := exists_of_ofName h
    exact (everywhere_variable _ name).mpr trivial
  | unary _ h iha =>
    obtain ⟨op, rfl⟩ := exists_of_ofUnary h
    exact (everywhere_unary _ op _).mpr ⟨trivial, iha⟩
  | binary _ _ h iha ihb =>
    obtain ⟨op, rfl⟩ := exists_of_ofBinary h
    exact (everywhere_binary _ op _ _).mpr ⟨trivial, iha, ihb⟩
  | choice _ _ _ h ihc iha ihb =>
    obtain rfl := eq_choice_of_ofChoice h
    exact (everywhere_choice _ _ _ _).mpr ⟨trivial, ihc, iha, ihb⟩
  | call _ h ih =>
    obtain ⟨s, rfl⟩ := exists_of_ofCall h
    exact (everywhere_call _ _ _).mpr ⟨⟨s, rfl⟩, ih⟩

/-- The functions of a built formula are named in upper case if their names name something. -/
theorem Built.upperNamed {e : Expr} (h : e.Built) (hnamed : e.Everywhere IsNamed) :
    e.Everywhere IsUpperNamed := by
  intro n hn
  have hcapitalised := h.capitalised n hn
  have hname := hnamed n hn
  cases n with
  | call name args =>
    obtain ⟨s, rfl⟩ := hcapitalised
    exact upperCase_of_isName hname.1
  | _ => trivial

end Expr

end PayrollFormula
