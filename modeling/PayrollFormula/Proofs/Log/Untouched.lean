import Mathlib.Data.List.Forall2
import PayrollFormula.Proofs.Log.Redaction

/-!
# What redaction does not touch

Redaction replaces values of sensitive fields and cuts texts that are too long. `Becomes` allows
these two changes, wherever they are made, and no others: a record keeps its names and a list its
length, both in their order. A redacted context is one that the context becomes, and redaction
leaves it as it is (`fields_spares_rest`).
-/

set_option autoImplicit false

namespace PayrollFormula

namespace Redaction

mutual

/-- Whether a value becomes another one if values of sensitive fields are replaced as a whole and
texts that are too long are cut, some of them or all, and nothing else is changed. -/
inductive Becomes : Value → Value → Prop where
  | same (v : Value) : Becomes v v
  | cut (s : String) (h : maxLength < s.length) :
      Becomes (.text s) (.text (String.ofList (s.toList.take maxLength) ++ cutMark))
  | list {vs ws : List Value} (h : List.Forall₂ Becomes vs ws) : Becomes (.list vs) (.list ws)
  | record {fs gs : Fields} (h : List.Forall₂ FieldBecomes fs gs) :
      Becomes (.record fs) (.record gs)

/-- Whether a field becomes another one of the same name in this way. -/
inductive FieldBecomes : String × Value → String × Value → Prop where
  | kept (name : String) {v w : Value} (h : Becomes v w) : FieldBecomes (name, v) (name, w)
  | replaced (name : String) (v : Value) (h : isSensitive name = true) :
      FieldBecomes (name, v) (name, .text mark)

end

/-- A text becomes the text that is cut. -/
theorem becomes_cutText (s : String) : Becomes (.text s) (.text (cutText s)) := by
  unfold cutText
  split_ifs with h
  · exact .cut s h
  · exact .same _

/-- A value becomes what redaction makes of it, in a field and in a list. -/
theorem becomes_redacted (v : Value) : Becomes v (field v) ∧ Becomes v (element v) := by
  apply redacted_induction .same becomes_cutText
  · intro vs ih
    refine .list ?_
    rw [List.forall₂_map_right_iff]
    exact List.forall₂_same.mpr ih
  · intro fs ih
    refine .record ?_
    rw [fields_eq_map, List.forall₂_map_right_iff]
    refine List.forall₂_same.mpr fun f hf => ?_
    by_cases hname : isSensitive f.1 = true
    · rw [if_pos hname]
      exact .replaced f.1 f.2 hname
    · rw [if_neg hname]
      exact .kept f.1 (ih f hf)

/-! ## Redaction a second time -/

/-- A cut text is still too long, and is cut at the same place with the same mark behind it. -/
theorem cutText_cutText (s : String) : cutText (cutText s) = cutText s := by
  unfold cutText
  split_ifs with h hagain
  · have htake : (s.toList.take maxLength).length = maxLength := by
      rw [List.length_take, String.length_toList]
      omega
    rw [String.toList_append, String.toList_ofList, List.take_left' htake]
  · rfl
  · rfl

/-- Redacting a value without parts again changes nothing. -/
theorem redacted_atom {v : Value} (hv : v.isAtom = true) :
    field (field v) = field v ∧ element (element v) = element v := by
  cases v with
  | text s => simp [field, element, cutText_cutText]
  | list | record => cases hv
  | _ => exact ⟨rfl, rfl⟩

/-- Redacting fields again changes nothing if it changes no value. -/
theorem fields_fields_of {fs : Fields} (h : ∀ f ∈ fs, field (field f.2) = field f.2) :
    fields (fields fs) = fields fs := by
  simp only [fields_eq_map, List.map_map]
  refine List.map_congr_left fun f hf => ?_
  -- The name stays, so the value of a sensitive field is replaced a second time.
  by_cases hname : isSensitive f.1 = true
  · simp [hname]
  · simp [hname, h f hf]

/-- Redacting a value again changes nothing. -/
theorem redacted_redacted (v : Value) :
    field (field v) = field v ∧ element (element v) = element v := by
  induction v using Value.induction with
  | atom v hv => exact redacted_atom hv
  | list vs ih =>
    refine ⟨?_, rfl⟩
    simp only [field, elements_eq_map, List.map_map]
    exact congrArg Value.list (List.map_congr_left fun v hv => (ih v hv).2)
  | record fs ih =>
    have hfields := congrArg Value.record (fields_fields_of fun f hf => (ih f hf).1)
    exact ⟨hfields, hfields⟩

/-- A context becomes its redacted form by nothing but replaced values of sensitive fields and cut
texts. Only the lists that are elements of a list are left as they are, so the redacted context is
clean exactly if these lists are. Redacting it again changes nothing. -/
theorem fields_spares_rest (context : Fields) :
    Becomes (.record context) (.record (fields context)) ∧
      (Clean (.record (fields context)) ↔ ∀ v ∈ exposedFields context, Clean v) ∧
      fields (fields context) = fields context :=
  ⟨(becomes_redacted (.record context)).1, (clean_redacted (.record context)).1,
    fields_fields_of fun f _ => (redacted_redacted f.2).1⟩

end Redaction

end PayrollFormula
