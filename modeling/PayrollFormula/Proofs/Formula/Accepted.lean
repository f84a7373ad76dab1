import PayrollFormula.Formula.Parse
import PayrollFormula.Proofs.Formula.Spelling
import PayrollFormula.Proofs.Formula.Trees

/-!
# The texts that are formulas

A text is read as a formula exactly if it is not blank and not too long, is cut into tokens to its
end, and its tokens are a phrase of the grammar whose tree is not too deep (`parse_eq_ok_iff`).
-/

set_option autoImplicit false

namespace PayrollFormula

namespace Formula

open Grammar

/-- A text is cut into tokens exactly if it is not blank and scanning it comes to its end. -/
theorem tokens_eq_ok_iff {cs : List Char} {ts : List Token} :
    tokens cs = .ok ts ↔ strip cs ≠ [] ∧ scan cs = ⟨ts, none⟩ := by
  unfold tokens
  by_cases hb : strip cs = []
  · simp [hb]
  · rw [if_neg (by simpa using hb)]
    rcases hs : scan cs with ⟨us, stop⟩
    cases stop <;> simp [hb]

/-- Numerals are in the range of doubles exactly if none is found that is not. -/
theorem inRange_iff_find? {ts : List Token} :
    InRange ts ↔ ts.find? (·.isOutOfRange) = none := by
  simp [InRange, List.find?_eq_none]

/-- A text has a tree exactly if it is scanned to its end and its tokens are a formula. -/
theorem tree_eq_ok_iff {cs : List Char} {e : Expr} :
    tree cs = .ok e ↔ ∃ ts, scan cs = ⟨ts, none⟩ ∧ Derives .ternary ts e := by
  rcases hs : scan cs with ⟨ts, stop⟩
  have hts : (∃ us, (⟨ts, stop⟩ : Scan) = ⟨us, none⟩ ∧ Derives .ternary us e) ↔
      stop = none ∧ Derives .ternary ts e := by
    constructor
    · rintro ⟨us, heq, h⟩
      cases heq
      exact ⟨rfl, h⟩
    · rintro ⟨rfl, h⟩
      exact ⟨ts, rfl, h⟩
  rw [hts]
  unfold tree Parsing.treeOf
  simp only [hs]
  constructor
  · intro h
    cases hrun : Parsing.run Parsing.initial ts with
    | error t => simp [hrun] at h
    | ok s =>
      cases stop with
      | some c => simp [hrun] at h
      | none =>
        cases hfin : Parsing.finish s with
        | none => simp [hrun, hfin] at h
        | some a =>
          cases hfind : ts.find? (·.isOutOfRange) with
          | some t => simp [hrun, hfin, hfind] at h
          | none =>
            simp only [hrun, hfin, hfind, Except.ok.injEq] at h
            subst h
            exact ⟨rfl, (run_finish_iff (inRange_iff_find?.mpr hfind)).mp ⟨s, hrun, hfin⟩⟩
  · rintro ⟨rfl, h⟩
    obtain ⟨s, hrun, hfin⟩ := h.run_initial
    have hfind := inRange_iff_find?.mp h.inRange
    simp [hrun, hfin, hfind]

/-- A text is read within limits exactly if it is not blank and not too long, and has a tree that
is not too deep. -/
theorem parse_eq_ok_iff_tree {limits : Limits} {text : String} {e : Expr} :
    parse limits text = .ok e ↔
      strip text.toList ≠ [] ∧ text.length ≤ limits.maxLength ∧
        tree text.toList = .ok e ∧ e.depth ≤ limits.maxDepth := by
  unfold parse
  simp only [← String.length_toList, List.isEmpty_iff]
  by_cases hb : strip text.toList = []
  · simp [hb]
  by_cases hl : limits.maxLength < text.toList.length
  · simp only [if_neg hb, if_pos hl, reduceCtorEq, false_iff]
    omega
  rw [if_neg hb, if_neg hl]
  cases tree text.toList with
  | error err => simp
  | ok a =>
    by_cases hd : limits.maxDepth < a.depth
    · simp only [if_pos hd, reduceCtorEq, Except.ok.injEq, false_iff]
      rintro ⟨-, -, rfl, hle⟩
      omega
    · simp only [if_neg hd, Except.ok.injEq]
      constructor
      · rintro rfl
        exact ⟨hb, by omega, rfl, by omega⟩
      · exact fun h => h.2.2.1

/-- What is read within limits is not deeper than they allow. -/
theorem height_le_of_parseValue {limits : Limits} {text : Value} {e : Expr}
    (h : parseValue limits text = .ok e) : e.height ≤ limits.maxDepth := by
  cases text with
  | text s =>
    obtain ⟨-, -, -, hdepth⟩ := parse_eq_ok_iff_tree.mp h
    rwa [Expr.depth_eq_height] at hdepth
  | _ => cases h

/-- A text is read as a formula within limits exactly if it is not blank, not too long and cut into
tokens that are a formula which is not too deep. -/
theorem parse_eq_ok_iff {limits : Limits} {text : String} {e : Expr} :
    parse limits text = .ok e ↔
      strip text.toList ≠ [] ∧ text.length ≤ limits.maxLength ∧
        ∃ ts, tokens text.toList = .ok ts ∧ Derives .ternary ts e ∧ e.depth ≤ limits.maxDepth := by
  rw [parse_eq_ok_iff_tree, tree_eq_ok_iff]
  constructor
  · rintro ⟨hb, hl, ⟨ts, hs, h⟩, hd⟩
    exact ⟨hb, hl, ts, tokens_eq_ok_iff.mpr ⟨hb, hs⟩, h, hd⟩
  · rintro ⟨hb, hl, ts, hs, h, hd⟩
    exact ⟨hb, hl, ⟨ts, (tokens_eq_ok_iff.mp hs).2, h⟩, hd⟩

/-- The parser accepts exactly the texts of the grammar and gives the tree that the grammar derives,
of which there is at most one for every list of tokens. -/
theorem parse_accepts_grammar :
    (∀ (limits : Limits) (text : String) (e : Expr),
      parse limits text = .ok e ↔
        strip text.toList ≠ [] ∧ text.length ≤ limits.maxLength ∧
          ∃ ts, tokens text.toList = .ok ts ∧ Derives .ternary ts e ∧
            e.depth ≤ limits.maxDepth) ∧
      ∀ (ts : List Token) (a b : Expr), Derives .ternary ts a → Derives .ternary ts b → a = b := by
  constructor
  · intro limits text e
    exact parse_eq_ok_iff
  · intro ts a b ha hb
    exact ha.unique hb

/-- Two subtractions in a row are read from the left, and cannot be read from the right. -/
theorem parse_sub_sub :
    parse .standard "a - b - c" =
        .ok (.binary .sub (.binary .sub (.variable "a") (.variable "b")) (.variable "c")) ∧
      ∀ ts, tokens "a - b - c".toList = .ok ts → ¬ Derives .ternary ts
        (.binary .sub (.variable "a") (.binary .sub (.variable "b") (.variable "c"))) := by
  have hts : tokens "a - b - c".toList = .ok [⟨.name, ['a'], 0⟩, ⟨.minus, ['-'], 2⟩,
      ⟨.name, ['b'], 4⟩, ⟨.minus, ['-'], 6⟩, ⟨.name, ['c'], 8⟩] := by
    decide
  have hname (t : Token) (ht : t.kind = .name) (c : Category) : Derives c [t] (.variable t.text) :=
    (Derives.named ht).loosen (strength_le c)
  have hab : Derives .additive [⟨.name, ['a'], 0⟩, ⟨.minus, ['-'], 2⟩, ⟨.name, ['b'], 4⟩]
      (.binary .sub (.variable "a") (.variable "b")) :=
    .binary .sub (hname _ rfl _) (hname ⟨.name, ['b'], 4⟩ rfl _)
  have habc : Derives .ternary [⟨.name, ['a'], 0⟩, ⟨.minus, ['-'], 2⟩, ⟨.name, ['b'], 4⟩,
      ⟨.minus, ['-'], 6⟩, ⟨.name, ['c'], 8⟩]
      (.binary .sub (.binary .sub (.variable "a") (.variable "b")) (.variable "c")) :=
    (Derives.binary .sub hab (hname _ rfl _)).loosen (by decide)
  constructor
  · have hdepth : (Expr.binary .sub (.binary .sub (.variable "a") (.variable "b"))
        (.variable "c")).depth ≤ Limits.standard.maxDepth := by
      rw [Expr.depth_eq_height]
      decide
    exact (parse_accepts_grammar.1 _ _ _).mpr
      ⟨by decide, by decide, _, hts, habc, hdepth⟩
  · intro ts h hright
    cases hts.symm.trans h
    have heq := parse_accepts_grammar.2 _ _ _ habc hright
    simp at heq

end Formula

end PayrollFormula
