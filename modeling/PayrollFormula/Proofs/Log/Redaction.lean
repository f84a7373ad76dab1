import Mathlib.Data.List.Basic
import PayrollFormula.Log.Journal
import PayrollFormula.Proofs.Value

/-!
# What redaction leaves

A value is clean if nothing sensitive stands in it at any depth and no text in it is longer than a
cut one. Redaction stops at the lists that are elements of a list: `exposedFields` collects these
lists as far as redaction gets to them. A redacted context is clean exactly if they are, and what
stands under sensitive names changes it exactly if it changes them (`fields_clean_iff`).
-/

set_option autoImplicit false

namespace PayrollFormula

namespace Redaction

/-! ## Clean values -/

/-- Whether no record inside a value, at whatever depth, has a sensitive field that is not replaced,
and no text inside it is longer than a text can be after it was cut. -/
def Clean (w : Value) : Prop :=
  (∀ fs : Fields, Value.Within (.record fs) w →
    ∀ f ∈ fs, isSensitive f.1 = true → f.2 = .text mark) ∧
    ∀ s, Value.Within (.text s) w → s.length ≤ maxLength + cutMark.length

/-- A text is clean exactly if it is short enough. -/
theorem clean_text {s : String} : Clean (.text s) ↔ s.length ≤ maxLength + cutMark.length := by
  unfold Clean
  simp [Value.within_atom (v := .text s) rfl]

/-- A value without parts that is no text is clean. -/
theorem clean_atom {v : Value} (hv : v.isAtom = true) (htext : ∀ s, v ≠ .text s) : Clean v := by
  unfold Clean
  simp only [Value.within_atom hv]
  constructor
  · rintro fs rfl
    cases hv
  · rintro s rfl
    exact absurd rfl (htext s)

/-- A list is clean exactly if each element is. -/
theorem clean_list {vs : List Value} : Clean (.list vs) ↔ ∀ v ∈ vs, Clean v := by
  unfold Clean
  simp only [Value.within_list, reduceCtorEq, false_or]
  constructor
  · rintro ⟨hrecords, htexts⟩ v hv
    exact ⟨fun fs h => hrecords fs ⟨v, hv, h⟩, fun s h => htexts s ⟨v, hv, h⟩⟩
  · intro h
    exact ⟨fun fs ⟨v, hv, hw⟩ => (h v hv).1 fs hw, fun s ⟨v, hv, hw⟩ => (h v hv).2 s hw⟩

/-- A record is clean exactly if its sensitive fields are replaced and the value of each field is
clean. -/
theorem clean_record {fs : Fields} : Clean (.record fs) ↔
    ∀ f ∈ fs, (isSensitive f.1 = true → f.2 = .text mark) ∧ Clean f.2 := by
  unfold Clean
  simp only [Value.within_record, Value.record.injEq, reduceCtorEq, false_or]
  constructor
  · rintro ⟨hrecords, htexts⟩ f hf
    exact ⟨hrecords fs (.inl rfl) f hf, fun gs h => hrecords gs (.inr ⟨f, hf, h⟩),
      fun s h => htexts s ⟨f, hf, h⟩⟩
  · intro h
    constructor
    · rintro gs (rfl | ⟨f, hf, hw⟩) g hg
      · exact (h g hg).1
      · exact (h f hf).2.1 gs hw g hg
    · rintro s ⟨f, hf, hw⟩
      exact (h f hf).2.2 s hw

/-- What replaces sensitive values is clean. -/
theorem clean_mark : Clean (.text mark) := clean_text.mpr (by decide)

/-- A text that is cut is short enough. -/
theorem length_cutText_le (s : String) : (cutText s).length ≤ maxLength + cutMark.length := by
  unfold cutText
  split_ifs with h
  · rw [String.length_append, String.length_ofList, List.length_take]
    omega
  · omega

/-! ## Redaction field by field and element by element -/

/-- Each field is replaced if it is sensitive, and redacted otherwise. -/
theorem fields_eq_map (fs : Fields) : fields fs =
    fs.map fun f => (f.1, if isSensitive f.1 then .text mark else field f.2) := by
  induction fs with
  | nil => rfl
  | cons f fs ih => rw [fields, ih, List.map_cons]

/-- Each element of a list is redacted. -/
theorem elements_eq_map (vs : List Value) : elements vs = vs.map element := by
  induction vs with
  | nil => rfl
  | cons v vs ih => rw [elements, ih, List.map_cons]

/-- A relation between values that every value has to itself and a text to what it is cut to, and
that lists and records inherit from their parts, holds between a value and what redaction leaves of
it. -/
theorem redacted_induction {R : Value → Value → Prop} (same : ∀ v, R v v)
    (text : ∀ s, R (.text s) (.text (cutText s)))
    (list : ∀ vs, (∀ v ∈ vs, R v (element v)) → R (.list vs) (.list (vs.map element)))
    (record : ∀ fs : Fields, (∀ f ∈ fs, R f.2 (field f.2)) → R (.record fs) (.record (fields fs)))
    (v : Value) : R v (field v) ∧ R v (element v) := by
  induction v using Value.induction with
  | atom v hv =>
    cases v with
    | list | record => cases hv
    | text s => exact ⟨text s, text s⟩
    | _ => exact ⟨same _, same _⟩
  | list vs ih =>
    have hlist := list vs fun v hv => (ih v hv).2
    rw [← elements_eq_map] at hlist
    exact ⟨hlist, same _⟩
  | record fs ih =>
    have hrecord := record fs fun f hf => (ih f hf).1
    exact ⟨hrecord, hrecord⟩

mutual

/-- The lists that are elements of a list and that redaction gets to in the fields of a record. -/
def exposedFields : Fields → List Value
  | [] => []
  | (name, v) :: rest => (if isSensitive name then [] else exposedField v) ++ exposedFields rest

/-- The lists that are elements of a list and that redaction gets to in the value of a field. -/
def exposedField : Value → List Value
  | .record fs => exposedFields fs
  | .list vs => exposedElements vs
  | _ => []

/-- The lists that are elements of a list and that redaction gets to in the elements of a list. -/
def exposedElements : List Value → List Value
  | [] => []
  | v :: vs => exposedElement v ++ exposedElements vs

/-- The lists that are elements of a list and that redaction gets to in one such element. -/
def exposedElement : Value → List Value
  | .record fs => exposedFields fs
  | .list vs => [.list vs]
  | _ => []

end

/-- What is exposed in a record is exposed in a field that is not sensitive. -/
theorem mem_exposedFields {u : Value} {fs : Fields} : u ∈ exposedFields fs ↔
    ∃ f ∈ fs, isSensitive f.1 = false ∧ u ∈ exposedField f.2 := by
  induction fs with
  | nil => simp [exposedFields]
  | cons f fs ih =>
    rw [exposedFields, List.mem_append, ih]
    cases h : isSensitive f.1 <;> simp [h]

/-- What is exposed in a list is exposed in an element. -/
theorem mem_exposedElements {u : Value} {vs : List Value} :
    u ∈ exposedElements vs ↔ ∃ v ∈ vs, u ∈ exposedElement v := by
  induction vs with
  | nil => simp [exposedElements]
  | cons v vs ih => simp [exposedElements, ih]

/-- A value without parts is clean when it is redacted. -/
theorem clean_redacted_atom {v : Value} (hv : v.isAtom = true) :
    Clean (field v) ∧ Clean (element v) := by
  cases v with
  | text s => exact ⟨clean_text.mpr (length_cutText_le s), clean_text.mpr (length_cutText_le s)⟩
  | list | record => cases hv
  | _ => exact ⟨clean_atom rfl (by simp [field]), clean_atom rfl (by simp [element])⟩

/-- In a value without parts nothing is exposed. -/
theorem exposed_atom {v : Value} (hv : v.isAtom = true) :
    exposedField v = [] ∧ exposedElement v = [] := by
  cases v with
  | list | record => cases hv
  | _ => exact ⟨rfl, rfl⟩

/-- A redacted record is clean exactly if the value of each field that is not sensitive is. -/
theorem clean_fields {fs : Fields} : Clean (.record (fields fs)) ↔
    ∀ f ∈ fs, isSensitive f.1 = false → Clean (field f.2) := by
  rw [clean_record, fields_eq_map]
  simp only [List.mem_map, forall_exists_index, and_imp, forall_apply_eq_imp_iff₂]
  refine forall₂_congr fun f hf => ?_
  cases isSensitive f.1 <;> simp [clean_mark]

/-- A redacted list is clean exactly if each element is. -/
theorem clean_elements {vs : List Value} :
    Clean (.list (elements vs)) ↔ ∀ v ∈ vs, Clean (element v) := by
  rw [clean_list, elements_eq_map]
  simp

/-- A redacted value is clean exactly if what is exposed in it is. -/
theorem clean_redacted (v : Value) :
    (Clean (field v) ↔ ∀ u ∈ exposedField v, Clean u) ∧
      (Clean (element v) ↔ ∀ u ∈ exposedElement v, Clean u) := by
  induction v using Value.induction with
  | atom v hv =>
    obtain ⟨hfield, helement⟩ := clean_redacted_atom hv
    obtain ⟨hf, he⟩ := exposed_atom hv
    simp [hf, he, hfield, helement]
  | list vs ih =>
    constructor
    · rw [field, exposedField, clean_elements]
      simp only [mem_exposedElements]
      constructor
      · rintro h u ⟨v, hv, hu⟩
        exact (ih v hv).2.mp (h v hv) u hu
      · intro h v hv
        exact (ih v hv).2.mpr fun u hu => h u ⟨v, hv, hu⟩
    · simp [element, exposedElement]
  | record fs ih =>
    have hrecord : Clean (.record (fields fs)) ↔ ∀ u ∈ exposedFields fs, Clean u := by
      rw [clean_fields]
      simp only [mem_exposedFields]
      constructor
      · rintro h u ⟨f, hf, hname, hu⟩
        exact (ih f hf).1.mp (h f hf hname) u hu
      · intro h f hf hname
        exact (ih f hf).1.mpr fun u hu => h u ⟨f, hf, hname, hu⟩
    exact ⟨hrecord, hrecord⟩

/-! ## What sensitive values change -/

mutual

/-- A value without what is stored under sensitive names, at whatever depth. -/
def masked : Value → Value
  | .record fs => .record (maskedFields fs)
  | .list vs => .list (maskedElements vs)
  | v => v

/-- The fields of a record without what is stored under sensitive names. -/
def maskedFields : Fields → Fields
  | [] => []
  | (name, v) :: rest => (name, if isSensitive name then .null else masked v) :: maskedFields rest

/-- The elements of a list without what is stored under sensitive names. -/
def maskedElements : List Value → List Value
  | [] => []
  | v :: vs => masked v :: maskedElements vs

end

/-- Whether two results are equal exactly if two lists of the same length are. -/
def Tracks {α : Type} (a b : α) (us ws : List Value) : Prop :=
  us.length = ws.length ∧ (a = b ↔ us = ws)

/-- Equal results go with equal lists. -/
theorem Tracks.rfl {α : Type} {a : α} {us : List Value} : Tracks a a us us :=
  ⟨Eq.refl _, by simp⟩

/-- An injective function of results tracks the same lists. -/
theorem Tracks.map {α β : Type} {a b : α} {us ws : List Value} {f : α → β}
    (h : Tracks a b us ws) (hf : Function.Injective f) : Tracks (f a) (f b) us ws :=
  ⟨h.1, by rw [hf.eq_iff, h.2]⟩

/-- Results in front of other results track one list behind the other. -/
theorem Tracks.cons {α : Type} {a b : α} {as bs : List α} {us ws us' ws' : List Value}
    (h : Tracks a b us ws) (h' : Tracks as bs us' ws') :
    Tracks (a :: as) (b :: bs) (us ++ us') (ws ++ ws') := by
  refine ⟨by rw [List.length_append, List.length_append, h.1, h'.1], ?_⟩
  rw [List.cons.injEq, h.2, h'.2]
  constructor
  · rintro ⟨rfl, rfl⟩
    rfl
  · intro happend
    exact List.append_inj happend h.1

/-- Redacted elements track what is exposed in them if they do one by one. -/
theorem tracks_elements {vs ws : List Value} (h : maskedElements vs = maskedElements ws)
    (ih : ∀ v ∈ vs, ∀ w, masked v = masked w →
      Tracks (element v) (element w) (exposedElement v) (exposedElement w)) :
    Tracks (elements vs) (elements ws) (exposedElements vs) (exposedElements ws) := by
  induction vs generalizing ws with
  | nil =>
    cases ws with
    | nil => exact .rfl
    | cons w ws => cases h
  | cons v vs ihvs =>
    cases ws with
    | nil => cases h
    | cons w ws =>
      rw [maskedElements, maskedElements, List.cons.injEq] at h
      have hhead := ih v List.mem_cons_self w h.1
      exact hhead.cons (ihvs h.2 fun u hu => ih u (List.mem_cons_of_mem v hu))

/-- Redacted fields track what is exposed in them if they do one by one. -/
theorem tracks_fields {fs gs : Fields} (h : maskedFields fs = maskedFields gs)
    (ih : ∀ f ∈ fs, ∀ w, masked f.2 = masked w →
      Tracks (field f.2) (field w) (exposedField f.2) (exposedField w)) :
    Tracks (fields fs) (fields gs) (exposedFields fs) (exposedFields gs) := by
  induction fs generalizing gs with
  | nil =>
    cases gs with
    | nil => exact .rfl
    | cons g gs => cases h
  | cons f fs ihfs =>
    cases gs with
    | nil => cases h
    | cons g gs =>
      obtain ⟨name, v⟩ := f
      obtain ⟨name', w⟩ := g
      rw [maskedFields, maskedFields, List.cons.injEq, Prod.mk.injEq] at h
      obtain ⟨⟨rfl, hvalue⟩, hrest⟩ := h
      have htail := ihfs hrest fun f' hf' => ih f' (List.mem_cons_of_mem _ hf')
      rw [fields, fields, exposedFields, exposedFields]
      refine Tracks.cons ?_ htail
      -- The values of a sensitive field are both replaced, and so nothing is exposed in them.
      by_cases hname : isSensitive name = true
      · simp only [hname, if_true]
        exact .rfl
      · simp only [hname, Bool.false_eq_true, if_false] at hvalue ⊢
        have hhead := ih (name, v) List.mem_cons_self w hvalue
        exact hhead.map fun _ _ heq => (Prod.mk.inj heq).2

/-- A value without parts has nothing to leave out. -/
theorem masked_atom {v : Value} (hv : v.isAtom = true) : masked v = v := by
  cases v with
  | list | record => cases hv
  | _ => rfl

/-- Leaving out what is sensitive makes no part and takes away none. -/
theorem isAtom_masked (v : Value) : (masked v).isAtom = v.isAtom := by
  cases v <;> rfl

/-- Two values that are the same apart from sensitive ones track what is exposed in them. -/
theorem tracks_redacted (v : Value) : ∀ w, masked v = masked w →
    Tracks (field v) (field w) (exposedField v) (exposedField w) ∧
      Tracks (element v) (element w) (exposedElement v) (exposedElement w) := by
  induction v using Value.induction with
  | atom v hv =>
    intro w h
    have hw : w.isAtom = true := by rw [← isAtom_masked w, ← h, isAtom_masked v, hv]
    rw [masked_atom hv, masked_atom hw] at h
    rw [h]
    exact ⟨.rfl, .rfl⟩
  | list vs ih =>
    intro w h
    cases w with
    | list ws =>
      rw [masked, masked, Value.list.injEq] at h
      have helements := tracks_elements h fun v hv w hw => (ih v hv w hw).2
      refine ⟨helements.map fun _ _ => Value.list.inj, ?_, ?_⟩
      · rfl
      · simp [element, exposedElement]
    | _ => cases h
  | record fs ih =>
    intro w h
    cases w with
    | record gs =>
      rw [masked, masked, Value.record.injEq] at h
      have hfields := tracks_fields h fun f hf w hw => (ih f hf w hw).1
      have hrecord := hfields.map (f := Value.record) fun _ _ => Value.record.inj
      exact ⟨hrecord, hrecord⟩
    | _ => cases h

/-- An event is prepared from its redacted context, and from nothing else of its context. -/
theorem prepared_congr {e : Event} {fs : Fields} (h : fields fs = fields e.context) :
    { e with context := fs }.prepared = e.prepared := by
  unfold Event.prepared Event.redacted
  rw [h]

/-- The redacted context of an event is clean exactly if the lists that are elements of a list are,
as far as redaction gets to them. Other values under sensitive names make a difference to it
exactly if they make one in these lists, and otherwise make none to the line that is written. -/
theorem fields_clean_iff (j : Journal) (e : Event) (run : Option String) :
    (Clean (.record (fields e.context)) ↔ ∀ v ∈ exposedFields e.context, Clean v) ∧
      ∀ fs : Fields, maskedFields fs = maskedFields e.context →
        (fields fs = fields e.context ↔ exposedFields fs = exposedFields e.context) ∧
          (exposedFields fs = exposedFields e.context →
            Journal.line { e with context := fs }.prepared = Journal.line e.prepared ∧
              j.emit { e with context := fs } run = j.emit e run) := by
  refine ⟨(clean_redacted (.record e.context)).1, fun fs hmasked => ?_⟩
  have hsame : fields fs = fields e.context ↔ exposedFields fs = exposedFields e.context :=
    (tracks_fields hmasked fun f _ w hw => (tracks_redacted f.2 w hw).1).2
  refine ⟨hsame, fun hexposed => ?_⟩
  unfold Journal.emit
  rw [prepared_congr (hsame.mpr hexposed)]
  exact ⟨rfl, rfl⟩

/-- Salaries in a list that is an element of a list are not redacted, and make a difference. -/
theorem nested_list_not_clean :
    (¬ ∀ fs : Fields, Clean (.record (fields fs))) ∧
      ¬ ∀ fs gs : Fields, maskedFields fs = maskedFields gs → fields fs = fields gs := by
  constructor
  · intro h
    have hclean := h [("a", .list [.list [.record [("salary", .int 1)]]])]
    have hsalary := hclean.1 [("salary", .int 1)]
      (.field (List.mem_singleton.mpr rfl) (.element (List.mem_singleton.mpr rfl)
        (.element (List.mem_singleton.mpr rfl) (.self _)))) ("salary", .int 1)
      (List.mem_singleton.mpr rfl) (by decide)
    cases hsalary
  · intro h
    have heq := h [("a", .list [.list [.record [("salary", .int 1)]]])]
      [("a", .list [.list [.record [("salary", .int 2)]]])] rfl
    cases heq

end Redaction

end PayrollFormula
