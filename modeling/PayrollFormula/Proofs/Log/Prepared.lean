import Mathlib.Data.List.Basic
import PayrollFormula.Log.Journal
import PayrollFormula.Proofs.Json.Extent
import PayrollFormula.Proofs.Log.Redaction

/-!
# Events as they are logged

Redaction keeps the names of fields, makes no value deeper, and keeps whatever holds everywhere in
a value as long as texts may be put in its place (`everywhere_redacted`). So an event that names
what it is about is logged with the level that it has, and an event that is not too deep and has no
long integers has a line when it is prepared (`writable_prepared`).
-/

set_option autoImplicit false

namespace PayrollFormula

namespace Redaction

/-- Redaction keeps the names of fields. -/
theorem names_fields (fs : Fields) : Fields.names (fields fs) = fs.names := by
  rw [fields_eq_map]
  simp [Fields.names]

/-- The value of a redacted field is a mark or the redacted value of the field. -/
theorem mem_fields {fs : Fields} {f : String × Value} (h : f ∈ fields fs) :
    ∃ g ∈ fs, f.2 = .text mark ∨ f.2 = field g.2 := by
  rw [fields_eq_map, List.mem_map] at h
  obtain ⟨g, hg, rfl⟩ := h
  refine ⟨g, hg, ?_⟩
  simp only
  split_ifs
  · exact .inl rfl
  · exact .inr rfl

/-- What holds everywhere in a value holds everywhere in what redaction leaves of it, if it holds
of all texts and depends on no more than the names of a record. -/
theorem everywhere_redacted {P : Value → Prop} (htext : ∀ s, P (.text s))
    (hlist : ∀ vs ws, P (.list vs) → P (.list ws))
    (hrecord : ∀ fs gs : Fields, gs.names = fs.names → P (.record fs) → P (.record gs))
    (v : Value) (h : v.Everywhere P) : (field v).Everywhere P ∧ (element v).Everywhere P := by
  have hmark (s : String) : (Value.text s).Everywhere P := (Value.everywhere_atom rfl).mpr (htext s)
  have hredacted : (v.Everywhere P → (field v).Everywhere P) ∧
      (v.Everywhere P → (element v).Everywhere P) := by
    refine redacted_induction (R := fun v w => v.Everywhere P → w.Everywhere P) (fun _ => id)
      (fun s _ => hmark _) ?_ ?_ v
    · intro vs ih h
      obtain ⟨hself, hparts⟩ := Value.everywhere_list.mp h
      refine Value.everywhere_list.mpr ⟨hlist _ _ hself, ?_⟩
      exact List.forall_mem_map.mpr fun v hv => ih v hv (hparts v hv)
    · intro fs ih h
      obtain ⟨hself, hparts⟩ := Value.everywhere_record.mp h
      refine Value.everywhere_record.mpr ⟨hrecord _ _ (names_fields fs) hself, ?_⟩
      intro f hf
      obtain ⟨g, hg, hvalue | hvalue⟩ := mem_fields hf
      · rw [hvalue]
        exact hmark mark
      · rw [hvalue]
        exact ih g hg (hparts g hg)
  exact ⟨hredacted.1 h, hredacted.2 h⟩

open Json

/-- Redaction makes no value deeper. -/
theorem levels_redacted_le (v : Value) :
    levels (field v) ≤ levels v ∧ levels (element v) ≤ levels v := by
  refine redacted_induction (R := fun v w => levels w ≤ levels v) (fun _ => Nat.le_refl _)
    (fun _ => Nat.le_refl 1) ?_ ?_ v
  · intro vs ih
    rw [levels, levels, Nat.add_le_add_iff_right, itemLevels_le_iff, List.forall_mem_map]
    intro v hv
    exact Nat.le_trans (ih v hv) (itemLevels_le_iff.mp (Nat.le_refl _) v hv)
  · intro fs ih
    rw [levels, levels, Nat.add_le_add_iff_right, fieldLevels_le_iff]
    intro f hf
    obtain ⟨g, hg, hvalue | hvalue⟩ := mem_fields hf
    · have hpos : 1 ≤ levels g.2 := by
        cases g.2 <;> simp [levels]
      rw [hvalue]
      exact Nat.le_trans hpos (fieldLevels_le_iff.mp (Nat.le_refl _) g hg)
    · rw [hvalue]
      exact Nat.le_trans (ih g hg) (fieldLevels_le_iff.mp (Nat.le_refl _) g hg)

/-- Redaction adds no level. -/
theorem fieldLevels_fields_le (fs : Fields) : fieldLevels (fields fs) ≤ fieldLevels fs := by
  have h := (levels_redacted_le (.record fs)).1
  rwa [field, levels, levels, Nat.add_le_add_iff_right] at h

end Redaction

namespace Event

variable {e : Event}

/-- An event whose context is not too deep and whose integers are short has a line. -/
theorem unwritable?_eq_none_iff :
    Journal.unwritable? e = none ↔
      Json.fieldLevels e.context ≤ Json.maxLevels ∧
        Json.hasLongInteger (.record e.toFields) = false := by
  unfold Journal.unwritable?
  split_ifs with hdeep hlong
  · simp only [false_iff, not_and]
    omega
  · simp [hlong]
  · simp only [true_iff]
    exact ⟨by omega, by simpa using hlong⟩

/-- What holds everywhere in the context of an event holds everywhere in the one that it is logged
with, if it holds of all texts and lists, and of records for no more than their names' being
different. -/
theorem everywhere_prepared {P : Value → Prop} (htext : ∀ s, P (.text s))
    (hlist : ∀ vs, P (.list vs))
    (hrecord : ∀ fs gs : Fields, (fs.names.Nodup → gs.names.Nodup) → P (.record fs) →
      P (.record gs))
    (h : (Value.record e.context).Everywhere P) :
    (Value.record e.prepared.context).Everywhere P := by
  have hredacted : (Value.record e.redacted.context).Everywhere P := by
    refine (Redaction.everywhere_redacted htext (fun _ vs _ => hlist vs) ?_ _ h).1
    exact fun fs gs hnames => hrecord fs gs (by rw [hnames]; exact id)
  rw [prepared, attributed]
  split_ifs
  · exact hredacted
  · obtain ⟨hself, hparts⟩ := Value.everywhere_record.mp hredacted
    refine Value.everywhere_record.mpr ⟨hrecord _ _ Fields.nodup_names_set hself, fun f hf => ?_⟩
    rcases Fields.eq_or_mem_of_mem_set hf with rfl | hf
    · refine Value.everywhere_list.mpr ⟨hlist _, fun v hv => ?_⟩
      rw [List.mem_singleton.mp hv]
      exact (Value.everywhere_atom rfl).mpr (htext _)
    · exact hparts f hf

/-- The list of what is missing is all that can make the context of an event deeper. -/
theorem fieldLevels_prepared_le (e : Event) :
    Json.fieldLevels e.prepared.context ≤ max 2 (Json.fieldLevels e.context) := by
  have hredacted : Json.fieldLevels e.redacted.context ≤ Json.fieldLevels e.context :=
    Redaction.fieldLevels_fields_le e.context
  rw [prepared, attributed]
  split_ifs
  · exact Nat.le_trans hredacted (Nat.le_max_right _ _)
  · refine Json.fieldLevels_le_iff.mpr fun f hf => ?_
    rcases Fields.eq_or_mem_of_mem_set hf with rfl | hf
    · exact Nat.le_max_left _ _
    · have hlevels := Json.fieldLevels_le_iff.mp hredacted f hf
      exact Nat.le_trans hlevels (Nat.le_max_right _ _)

/-- Only the version and the context of an event can have long integers. -/
theorem hasLongInteger_toFields (e : Event) :
    Json.hasLongInteger (.record e.toFields) =
      (Json.isLongInteger e.version || Json.hasLongInteger (.record e.context)) := by
  cases hcode : e.errorCode <;>
    simp [toFields, optionalText, hcode, Json.hasLongInteger, Json.fieldsHaveLongInteger]

/-- An event that is not too deep and has no long integers has a line when it is prepared. -/
theorem writable_prepared (hlevels : Json.fieldLevels e.context ≤ Json.maxLevels)
    (hshort : Json.hasLongInteger (.record e.toFields) = false) :
    Journal.unwritable? e.prepared = none := by
  rw [unwritable?_eq_none_iff]
  constructor
  · have htwo : 2 ≤ Json.maxLevels := by decide
    exact Nat.le_trans (fieldLevels_prepared_le e) (Nat.max_le.mpr ⟨htwo, hlevels⟩)
  · have hversion : e.prepared.version = e.version := by
      rw [prepared, attributed]
      split_ifs <;> rfl
    rw [hasLongInteger_toFields, Bool.or_eq_false_iff] at hshort ⊢
    rw [hversion]
    refine ⟨hshort.1, ?_⟩
    rw [Json.hasLongInteger_eq_false_iff] at hshort ⊢
    exact everywhere_prepared (fun _ => trivial) (fun _ => trivial) (fun _ _ _ _ => trivial)
      hshort.2

end Event

end PayrollFormula
