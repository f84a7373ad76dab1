import Mathlib.Data.List.Nodup
import PayrollFormula.Proofs.Formula.Accepted
import PayrollFormula.Proofs.Formula.Scanning
import PayrollFormula.Proofs.Template.Hygiene

/-!
# Finding and applying loaded templates

A catalogue that is loaded has one template for each entry of its document, and no two templates of
one code. So its templates stand in a strict order by their codes (`Catalogue.pairwise_sorted`), and
a code finds the one template that has it (`Catalogue.find_eq_ok_iff`). Because the placeholders of
a loaded template are its parameters, each of them is filled with a number
(`Template.supplies_of_resolve`), and what is accepted as a formula has no placeholder left
(`Segment.not_mem_cut_of_parse`).
-/

set_option autoImplicit false

namespace PayrollFormula

namespace Catalogue

variable {c : Catalogue} {vs : List Value}

/-! ## Listing -/

/-- Templates of different codes are listed in a strict order. -/
theorem pairwise_sorted (hcodes : (c.map Template.code).Nodup) :
    (sorted c).Pairwise fun s t => s.code < t.code := by
  have hordered : (sorted c).Pairwise fun s t => decide (s.code ≤ t.code) = true := by
    refine List.pairwise_mergeSort ?_ ?_ c
    · intro s t u hst htu
      exact decide_eq_true (String.le_trans (of_decide_eq_true hst) (of_decide_eq_true htu))
    · intro s t
      simpa using String.le_total s.code t.code
  have hdistinct : (sorted c).Pairwise fun s t => s.code ≠ t.code := by
    apply List.pairwise_map.mp
    exact ((List.mergeSort_perm c _).map Template.code).nodup_iff.mpr hcodes
  refine hordered.imp₂ ?_ hdistinct
  intro s t hle hne
  apply String.not_le.mp
  intro hge
  exact hne (String.le_antisymm (of_decide_eq_true hle) hge)

/-- Whether a template is in a category, if one is asked for. -/
def isIn (category : Option String) (t : Template) : Bool :=
  category.all fun name => t.category = name

/-- The templates of a category are listed, each once, in a strict order by code. -/
theorem select_perm_pairwise (hcodes : (c.map Template.code).Nodup) (category : Option String) :
    (c.select category).Perm (c.filter (isIn category)) ∧
      (c.select category).Pairwise fun s t => s.code < t.code := by
  have hselect : c.select category = sorted (c.filter (isIn category)) := by
    cases category with
    | none =>
      have hall : c.filter (isIn none) = c := List.filter_eq_self.mpr fun t _ => rfl
      rw [hall, select]
    | some name => rfl
  rw [hselect]
  refine ⟨List.mergeSort_perm _ _, pairwise_sorted ?_⟩
  exact hcodes.sublist (List.filter_sublist.map Template.code)

/-! ## Looking up -/

/-- A code finds the template that has it. -/
theorem find_eq_ok_iff (hcodes : (c.map Template.code).Nodup) {code : String} {t : Template} :
    c.find code = .ok t ↔ t ∈ c ∧ t.code = code := by
  unfold find
  constructor
  · intro h
    split at h
    · rename_i found hfound
      cases h
      exact ⟨List.mem_of_find?_eq_some hfound, by simpa using List.find?_some hfound⟩
    · cases h
  · rintro ⟨ht, rfl⟩
    cases hfound : c.find? (fun u => u.code = t.code) with
    | none =>
      have hnot := List.find?_eq_none.mp hfound t ht
      simp at hnot
    | some u =>
      have hcode : u.code = t.code := by simpa using List.find?_some hfound
      have hsame := List.inj_on_of_nodup_map hcodes (List.mem_of_find?_eq_some hfound) ht hcode
      rw [hsame]

/-- A code that no template has is not found. -/
theorem find_eq_error_iff {code : String} {e : LookupError} :
    c.find code = .error e ↔
      (∀ t ∈ c, t.code ≠ code) ∧ e = ⟨code, sortTexts (c.map Template.code)⟩ := by
  have hnone : (∀ t ∈ c, t.code ≠ code) ↔ c.find? (fun t => t.code = code) = none := by
    simp
  rw [hnone]
  unfold find
  cases c.find? (fun t => t.code = code) with
  | none => simp [eq_comm]
  | some t => simp

end Catalogue

/-! ## Placeholders left over -/

namespace Segment

/-- A text without an opening brace has no placeholder. -/
theorem cut_of_not_mem {cs : List Char} (h : '\x7b' ∉ cs) : cut 0 cs = cs.map .plain := by
  induction cs with
  | nil => rfl
  | cons c cs ih =>
    rw [List.mem_cons, not_or] at h
    obtain ⟨hc, hcs⟩ := h
    have hnone : opening? (c :: cs) = none := by
      unfold opening?
      split
      · rename_i heq
        cases heq
        exact absurd rfl hc
      · rfl
    rw [cut, hnone, ih hcs]
    rfl

/-- A formula has no placeholder. -/
theorem not_mem_cut_of_parse {limits : Limits} {text : String} {e : Expr}
    (h : Formula.parse limits text = .ok e) (name : List Char) :
    .placeholder name ∉ cut 0 text.toList := by
  obtain ⟨-, -, htree, -⟩ := Formula.parse_eq_ok_iff_tree.mp h
  obtain ⟨ts, hscan, -⟩ := Formula.tree_eq_ok_iff.mp htree
  have hbrace : '\x7b' ∉ text.toList :=
    (scan_eq_iff.mp hscan).not_mem (by decide) (by decide) (by decide)
  rw [cut_of_not_mem hbrace]
  simp

end Segment

/-! ## Filling in numbers -/

namespace Template

variable {t : Template} {values : Fields} {numbers : List (String × Double)}

/-- Whether numbers are those of exactly the declared parameters, given the supplied values, and the
formula gets one in the place of every placeholder. -/
def Supplies (t : Template) (values : Fields) (numbers : List (String × Double)) : Prop :=
  ∃ number : String → Double,
    (∀ p ∈ t.declared, p.number values = .ok (number p.name)) ∧
    numbers = t.parameterNames.map (fun name => (name, number name)) ∧
    (t.substitute numbers).toList =
      Segment.spellAll (fun name => operandText (number name)) t.segments

/-- Parameters with different names have their numbers by name. -/
theorem exists_number {ps : List Parameter}
    (h : List.Forall₂ (fun p q => q.1 = p.name ∧ p.number values = .ok q.2) ps numbers)
    (hnames : (ps.map Parameter.name).Nodup) :
    ∃ number : String → Double, (∀ p ∈ ps, p.number values = .ok (number p.name)) ∧
      numbers = (ps.map Parameter.name).map fun name => (name, number name) := by
  induction h with
  | nil => exact ⟨fun _ => .zero, List.forall_mem_nil _, rfl⟩
  | @cons p q ps numbers hpq _ ih =>
    rw [List.map_cons, List.nodup_cons] at hnames
    obtain ⟨number, hnumber, hnumbers⟩ := ih hnames.2
    have hother {name : String} (hname : name ∈ ps.map Parameter.name) :
        Function.update number p.name q.2 name = number name := by
      apply Function.update_of_ne
      rintro rfl
      exact hnames.1 hname
    refine ⟨Function.update number p.name q.2, ?_, ?_⟩
    · rw [List.forall_mem_cons, Function.update_self]
      refine ⟨hpq.2, fun p' hp' => ?_⟩
      rw [hother (List.mem_map_of_mem hp')]
      exact hnumber p' hp'
    · rw [List.map_cons, List.map_cons, Function.update_self, hnumbers]
      refine congrArg₂ List.cons (Prod.ext hpq.1 rfl) (List.map_congr_left fun name hname => ?_)
      rw [hother hname]

/-- The numbers of a template's parameters fill its placeholders, if these are the parameters. -/
theorem supplies_of_resolve (hnames : ∀ name, name ∈ t.placeholders ↔ name ∈ t.parameterNames)
    (h : t.resolve values = .ok numbers) : t.Supplies values numbers := by
  obtain ⟨number, hnumber, hnumbers⟩ := exists_number (forall₂_of_resolve h)
    (by rw [map_name_declared]; exact nodup_firstOccurrences _)
  rw [map_name_declared] at hnumbers
  refine ⟨number, hnumber, hnumbers, ?_⟩
  rw [toList_substitute, Segment.spellAll, Segment.spellAll]
  refine List.flatMap_congr fun seg hseg => ?_
  cases seg with
  | plain c => rfl
  | placeholder name =>
    have hname := (hnames _).mp (mem_placeholders hseg)
    have hlookup : numbers.lookup (String.ofList name) = some (number (String.ofList name)) := by
      rw [hnumbers]
      exact List.lookup_graph number hname
    simp only [Segment.spell, fill, String.ofList_toList, hlookup]

/-- A template is applied by filling in the numbers of its parameters, if that makes a formula. -/
theorem apply_eq_ok_iff {limits : Limits} {a : Applied} :
    t.apply limits values = .ok a ↔ ∃ numbers e, t.resolve values = .ok numbers ∧
      Formula.parse limits (t.substitute numbers) = .ok e ∧
      a = ⟨t.substitute numbers, t.code, t.name, numbers⟩ := by
  constructor
  · intro h
    cases hresolve : t.resolve values with
    | error e =>
      simp only [apply, hresolve, Except.mapError, bind, Except.bind] at h
      cases h
    | ok numbers =>
      cases hparse : Formula.parse limits (t.substitute numbers) with
      | error e =>
        simp only [apply, hresolve, Except.mapError, bind, Except.bind, hparse] at h
        cases h
      | ok e =>
        rw [apply_of_parse hresolve hparse] at h
        cases h
        exact ⟨numbers, e, rfl, hparse, rfl⟩
  · rintro ⟨numbers, e, hresolve, hparse, rfl⟩
    exact apply_of_parse hresolve hparse

end Template

/-- Loading, listing, looking up and applying templates agree. A document is loaded as a catalogue
exactly if it has a list of entries, each of which is read as the template in its place, no two of
one code and each with its parameters as placeholders. Then the templates of a category are listed,
each once and strictly by code; a code finds the template that has it, and is not found if none has
it; and the numbers of a template's parameters fill all of its placeholders, so that an applied
template has none of them left and lists the declared parameters. -/
theorem Catalogue.load_select_find_apply (place : String) (document : Value) :
    (∀ c, load place document = .ok c ↔ ∃ vs, entries? document = some vs ∧ c.Lists vs) ∧
    ∀ c, load place document = .ok c →
      (∀ category, (c.select category).Perm (c.filter (isIn category)) ∧
        (c.select category).Pairwise fun s t => s.code < t.code) ∧
      (∀ code t, c.find code = .ok t ↔ t ∈ c ∧ t.code = code) ∧
      (∀ code, (∃ e, c.find code = .error e) ↔ ∀ t ∈ c, t.code ≠ code) ∧
      ∀ t ∈ c, ∀ values,
        (∀ numbers, t.resolve values = .ok numbers → t.Supplies values numbers) ∧
        ∀ limits, c.apply limits t.code values = t.apply limits values ∧
          ∀ a, t.apply limits values = .ok a →
            t.Supplies values a.parameters ∧ a.formula = t.substitute a.parameters ∧
            ∀ name, .placeholder name ∉ Segment.cut 0 a.formula.toList := by
  refine ⟨fun c => load_eq_ok_iff, fun c hload => ?_⟩
  obtain ⟨vs, -, hlists⟩ := load_eq_ok_iff.mp hload
  have hfind (code : String) (t : Template) : c.find code = .ok t ↔ t ∈ c ∧ t.code = code :=
    find_eq_ok_iff hlists.codes
  refine ⟨select_perm_pairwise hlists.codes, hfind, ?_, ?_⟩
  · intro code
    simp only [find_eq_error_iff, exists_and_left, exists_eq, and_true]
  · intro t ht values
    have hsupplies (numbers : List (String × Double)) (h : t.resolve values = .ok numbers) :
        t.Supplies values numbers := Template.supplies_of_resolve (hlists.parameters t ht) h
    refine ⟨hsupplies, fun limits => ⟨?_, ?_⟩⟩
    · rw [Catalogue.apply, (hfind t.code t).mpr ⟨ht, rfl⟩]
    · intro a ha
      obtain ⟨numbers, e, hresolve, hparse, rfl⟩ := Template.apply_eq_ok_iff.mp ha
      exact ⟨hsupplies numbers hresolve, rfl, Segment.not_mem_cut_of_parse hparse⟩

/-- A catalogue of one template is loaded, listed and looked up, and the template applied. -/
theorem Catalogue.load_apply_scaled :
    let c : Catalogue := [Template.scaled .one]
    let a : Applied := ⟨"base * 1", "scaled", "Scaled", [("factor", .one)]⟩
    load "t" (Template.scaledDocument .one) = .ok c ∧ c.select (some "general") = c ∧
      c.find "scaled" = .ok (Template.scaled .one) ∧ c.apply .standard "scaled" [] = .ok a ∧
      (Template.scaled .one).Supplies [] a.parameters ∧
      ∀ name, .placeholder name ∉ Segment.cut 0 a.formula.toList := by
  intro c a
  have hload : load "t" (Template.scaledDocument .one) = .ok c := by decide +kernel
  obtain ⟨-, hloaded⟩ := load_select_find_apply "t" (Template.scaledDocument .one)
  obtain ⟨hselect, hfind, -, happly⟩ := hloaded c hload
  obtain ⟨-, hlimits⟩ := happly (Template.scaled .one) List.mem_cons_self []
  obtain ⟨hcode, hresult⟩ := hlimits .standard
  have hcategory : c.filter (isIn (some "general")) = c := rfl
  have happlied : (Template.scaled .one).apply .standard [] = .ok a := by
    have htext : (Template.scaled .one).substitute [("factor", .one)] = "base * 1" := by
      decide +kernel
    cases hparse : Formula.parse .standard "base * 1" with
    | error e =>
      have hsome : (Formula.parse .standard "base * 1").toOption.isSome = true := by decide +kernel
      rw [hparse] at hsome
      cases hsome
    | ok e =>
      rw [← htext] at hparse
      rw [Template.apply_of_parse (Template.resolve_scaled .one) hparse, htext]
      rfl
  obtain ⟨hsupplies, -, hbare⟩ := hresult a happlied
  refine ⟨hload, ?_, (hfind _ _).mpr ⟨List.mem_cons_self, rfl⟩, hcode.trans happlied, hsupplies,
    hbare⟩
  have hperm := (hselect (some "general")).1
  rw [hcategory] at hperm
  exact List.perm_singleton.mp hperm

end PayrollFormula
