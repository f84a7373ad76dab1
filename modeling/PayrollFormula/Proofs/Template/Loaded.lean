import Mathlib.Data.List.Basic
import PayrollFormula.Proofs.Number.Order
import PayrollFormula.Proofs.Number.Written
import PayrollFormula.Proofs.Text.Occurrences
import PayrollFormula.Template.Applied

/-!
# Loaded templates and their filling

In a template of a loaded catalogue the placeholders of the formula are the names of the declared
parameters (`Catalogue.placeholders_of_load`). So every placeholder is filled with a number once
the parameters have one each, and a finite number is written as a numeral (`exists_operand`).
-/

set_option autoImplicit false

namespace PayrollFormula

/-- No names are outside of others exactly if all are among them. -/
theorem namesOutside_eq_nil_iff {names others : List String} :
    namesOutside names others = [] ↔ ∀ name ∈ names, name ∈ others := by
  have hsort (ss : List String) : sortTexts ss = [] ↔ ss = [] := by
    unfold sortTexts
    rw [← List.length_eq_zero_iff, List.length_mergeSort, List.length_eq_zero_iff]
  rw [namesOutside, hsort, List.eq_nil_iff_forall_not_mem]
  simp

namespace Template

/-- A placeholder among the segments is one of the template. -/
theorem mem_placeholders {t : Template} {name : List Char} (h : .placeholder name ∈ t.segments) :
    String.ofList name ∈ t.placeholders := by
  rw [placeholders, mem_firstOccurrences, List.mem_filterMap]
  exact ⟨.placeholder name, h, rfl⟩

/-- Each parameter name has the declaration that counts for it. -/
theorem map_name_declared (t : Template) : t.declared.map Parameter.name = t.parameterNames := by
  have hfind : ∀ name ∈ t.parameterNames,
      (t.parameters.reverse.find? (·.name = name)).map Parameter.name = some name := by
    intro name hname
    rw [parameterNames, mem_firstOccurrences, List.mem_map] at hname
    obtain ⟨p, hp, rfl⟩ := hname
    cases hfound : t.parameters.reverse.find? (·.name = p.name) with
    | none =>
      have hnot := List.find?_eq_none.mp hfound p (List.mem_reverse.mpr hp)
      simp at hnot
    | some q =>
      have hq := List.find?_some hfound
      simpa using hq
  rw [declared, List.map_filterMap]
  have hmap := List.filterMap_congr hfind
  rwa [List.filterMap_some] at hmap

end Template

namespace Catalogue

/-- An entry is a template of a catalogue if it is one, of which the code is not used yet and the
placeholders are the parameters. -/
theorem enter_eq_ok_iff {place : String} {seen : List String} {v : Value} {t : Template} :
    enter place seen v = .ok t ↔ v.readRecord Template.ofFields = .ok t ∧ t.code ∉ seen ∧
      ∀ name, name ∈ t.placeholders ↔ name ∈ t.parameterNames := by
  have hsame (t : Template) : (∀ name, name ∈ t.placeholders ↔ name ∈ t.parameterNames) ↔
      namesOutside t.placeholders (t.parameters.map Parameter.name) = [] ∧
        namesOutside (t.parameters.map Parameter.name) t.placeholders = [] := by
    simp only [namesOutside_eq_nil_iff, Template.parameterNames, mem_firstOccurrences]
    simp only [iff_def, forall_and]
  unfold enter
  cases hread : v.readRecord Template.ofFields with
  | failed paths => simp
  | ok u =>
    simp only [Reading.ok.injEq, hsame]
    constructor
    · intro h
      split_ifs at h with hseen
      split at h
      · rename_i hundeclared hunused
        cases h
        exact ⟨rfl, hseen, hundeclared, hunused⟩
      · cases h
      · cases h
    · rintro ⟨rfl, hseen, hundeclared, hunused⟩
      simp only [if_neg hseen, hundeclared, hunused]

/-- What loading makes of the entries of a document: one template for each, in the same order, no
two with the same code, and each with its parameters as placeholders. -/
structure Lists (c : Catalogue) (vs : List Value) : Prop where
  entries : List.Forall₂ (fun v t => v.readRecord Template.ofFields = .ok t) vs c
  codes : (c.map Template.code).Nodup
  parameters : ∀ t ∈ c, ∀ name, name ∈ t.placeholders ↔ name ∈ t.parameterNames

/-- Entries are read one after the other, and the codes of those before are not used again. -/
theorem enterAll_eq_ok_iff {place : String} {seen : List String} {vs : List Value}
    {c : Catalogue} :
    enterAll place seen vs = .ok c ↔ c.Lists vs ∧ ∀ t ∈ c, t.code ∉ seen := by
  induction vs generalizing seen c with
  | nil =>
    constructor
    · intro h
      cases h
      exact ⟨⟨.nil, List.nodup_nil, List.forall_mem_nil _⟩, List.forall_mem_nil _⟩
    · rintro ⟨hlists, -⟩
      cases hlists.entries
      rfl
  | cons v vs ih =>
    have hstep : enterAll place seen (v :: vs) = .ok c ↔ ∃ t d, c = t :: d ∧
        enter place seen v = .ok t ∧ enterAll place (t.code :: seen) vs = .ok d := by
      rw [enterAll]
      cases hv : enter place seen v with
      | error err => simp [bind, Except.bind]
      | ok t =>
        cases hvs : enterAll place (t.code :: seen) vs with
        | error err => simp [bind, Except.bind, hvs]
        | ok d => simp [bind, Except.bind, hvs, pure, Except.pure, eq_comm]
    rw [hstep]
    constructor
    · rintro ⟨t, d, rfl, hv, hvs⟩
      obtain ⟨hread, hseen, hnames⟩ := enter_eq_ok_iff.mp hv
      obtain ⟨hlists, hnew⟩ := ih.mp hvs
      refine ⟨⟨.cons hread hlists.entries, ?_, ?_⟩, ?_⟩
      · rw [List.map_cons, List.nodup_cons]
        refine ⟨fun hmem => ?_, hlists.codes⟩
        obtain ⟨u, hu, hcode⟩ := List.mem_map.mp hmem
        exact hnew u hu (hcode ▸ List.mem_cons_self)
      · exact List.forall_mem_cons.mpr ⟨hnames, hlists.parameters⟩
      · exact List.forall_mem_cons.mpr ⟨hseen, fun u hu => mt (List.mem_cons_of_mem _) (hnew u hu)⟩
    · rintro ⟨⟨hentries, hcodes, hnames⟩, hnew⟩
      cases hentries with
      | cons hread hentries =>
        rename_i t d
        rw [List.map_cons, List.nodup_cons] at hcodes
        obtain ⟨hnames, hrest⟩ := List.forall_mem_cons.mp hnames
        obtain ⟨hseen, hnew⟩ := List.forall_mem_cons.mp hnew
        refine ⟨t, d, rfl, enter_eq_ok_iff.mpr ⟨hread, hseen, hnames⟩, ih.mpr ⟨?_, ?_⟩⟩
        · exact ⟨hentries, hcodes.2, hrest⟩
        · intro u hu hmem
          rcases List.mem_cons.mp hmem with hcode | hmem
          · exact hcodes.1 (hcode ▸ List.mem_map_of_mem hu)
          · exact hnew u hu hmem

/-- The entries of a document that lists templates. -/
def entries? : Value → Option (List Value)
  | .record fields =>
    match fields.lookup listField with
    | some (.list vs) => some vs
    | _ => none
  | _ => none

/-- A document is loaded as a catalogue exactly if the catalogue lists its entries. -/
theorem load_eq_ok_iff {place : String} {document : Value} {c : Catalogue} :
    load place document = .ok c ↔ ∃ vs, entries? document = some vs ∧ c.Lists vs := by
  have hload : load place document =
      match entries? document with
      | some vs => enterAll place [] vs
      | none => .error (.noList place) := by
    cases document with
    | record fields =>
      simp only [load, entries?]
      split <;> simp_all
    | _ => rfl
  rw [hload]
  cases entries? document with
  | none => simp
  | some vs => simp [enterAll_eq_ok_iff]

/-- The placeholders of a loaded template are its parameters. -/
theorem placeholders_of_load {place : String} {document : Value} {c : Catalogue}
    (h : load place document = .ok c) {t : Template} (ht : t ∈ c) (name : String) :
    name ∈ t.placeholders ↔ name ∈ t.parameterNames := by
  obtain ⟨vs, -, hlists⟩ := load_eq_ok_iff.mp h
  exact hlists.parameters t ht name

end Catalogue

namespace Template

/-- A finite number is written into a formula as a numeral of its size, in parentheses and after a
minus sign if it is below zero. -/
theorem exists_operand (x : Finite) :
    ∃ p : Numeral.Parts, p.Proper ∧ p.value.rank = x.rank ∧
      operandText (.finite x) =
        if x.ticks < 0 then '(' :: '-' :: (p.text ++ [')']) else p.text := by
  obtain ⟨p, htext, hp, hrank⟩ := x.exists_parts_formulaText
  refine ⟨p, hp, hrank, ?_⟩
  unfold operandText
  rw [Double.belowZero_finite, Double.formulaText, htext]
  by_cases hneg : x.ticks < 0
  · simp [hneg, Finite.signed]
  · simp [hneg, Finite.signed]

end Template

end PayrollFormula
