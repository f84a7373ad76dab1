import Mathlib.Data.List.Basic
import PayrollFormula.Log.Journal

/-!
# Queries of records

A query looks at fields of events, so events that are no records stop it. What it gives for records
that it can look into (`Query.IsSearchable`) are those that pass its filters
(`Query.answer_records`).
-/

set_option autoImplicit false

namespace PayrollFormula

namespace Query

/-- Whether a value is a record. -/
def IsRecord (v : Value) : Prop := ∃ fs, v = .record fs

/-- Whether a value is a record whose context, if it has one, is a record. -/
def IsSearchable (v : Value) : Prop :=
  ∃ fs : Fields, v = .record fs ∧ ∀ c, fs.get? "context" = some c → IsRecord c

/-- Whether what was found is what is wanted. No text and an empty one ask for nothing. -/
def admits (wanted found : Option String) : Bool :=
  match wanted with
  | none => true
  | some s => s.isEmpty || found = some s

/-- The text that a field of a record is. -/
def textOf (fs : Fields) (name : String) : Option String := (fs.get? name).bind Value.text?

/-- The hash in the context of a record. -/
def hashOf (fs : Fields) : Option String :=
  match fs.get? "context" with
  | some (.record context) => textOf context Event.hashField
  | _ => none

/-- Whether a record passes the filters of a query. -/
def passes (q : Query) (fs : Fields) : Bool :=
  admits q.level (textOf fs "level") && admits q.kind (textOf fs "event_type") &&
    admits q.hash (hashOf fs)

/-- The records that a query asks for: of those that pass its filters the newest, newest first. -/
def wanted (q : Query) (records : List Fields) : List Value :=
  let found := records.filter q.passes
  (found.reverse.take (kept (min q.limit maxLimit) found.length)).map .record

/-- A record is tested by the text of a field. -/
theorem fieldIs_record (fs : Fields) (name text : String) :
    fieldIs name text (.record fs) = .ok (textOf fs name = some text) := by
  rcases Option.eq_none_or_eq_some (fs.get? name) with hv | ⟨v, hv⟩
  · simp [fieldIs, fieldsOf, textOf, hv, bind, Except.bind, pure, Except.pure]
  · cases v <;>
      simp [fieldIs, fieldsOf, textOf, hv, Value.text?, bind, Except.bind, pure, Except.pure]

/-- A searchable record is tested by the hash in its context. -/
theorem hashIs_record {fs : Fields} (h : IsSearchable (.record fs)) (hash : String) :
    hashIs hash (.record fs) = .ok (hashOf fs = some hash) := by
  obtain ⟨_, ⟨⟩, hcontext⟩ := h
  rcases Option.eq_none_or_eq_some (fs.get? "context") with hc | ⟨c, hc⟩
  · simp [hashIs, fieldsOf, hashOf, hc, bind, Except.bind, pure, Except.pure]
  · obtain ⟨context, rfl⟩ := hcontext c hc
    simp only [hashIs, fieldsOf, hashOf, hc, bind, Except.bind]
    exact fieldIs_record context _ _

/-- Where a hash can be looked for, there is a record with a record as its context, if any. -/
theorem isSearchable_of_hashIs {hash : String} {v : Value} {b : Bool} (h : hashIs hash v = .ok b) :
    IsSearchable v := by
  cases v with
  | record fs =>
    refine ⟨fs, rfl, fun c hc => ?_⟩
    simp only [hashIs, fieldsOf, bind, Except.bind, hc] at h
    cases c with
    | record context => exact ⟨context, rfl⟩
    | _ => cases h
  | _ => cases h

/-! ## Selecting -/

/-- A selection by a test that is a property of the originals keeps those that have it. -/
theorem select_map {α : Type} {es : List α} {test : Value → Except LogError Bool} {g : α → Value}
    {p : α → Bool} (h : ∀ e ∈ es, test (g e) = .ok (p e)) :
    select test (es.map g) = .ok ((es.filter p).map g) := by
  induction es with
  | nil => rfl
  | cons e es ih =>
    obtain ⟨he, hes⟩ := List.forall_mem_cons.mp h
    rw [List.map_cons, select, he, ih hes, List.filter_cons]
    cases p e <;> rfl

/-- A selection by a text keeps the originals in which the text that is wanted was found. -/
theorem selectBy_map {α : Type} {es : List α} {test : String → Value → Except LogError Bool}
    {g : α → Value} {found : α → Option String} (wanted : Option String)
    (h : ∀ s, ∀ e ∈ es, test s (g e) = .ok (found e = some s)) :
    selectBy test wanted (es.map g) =
      .ok ((es.filter fun e => admits wanted (found e)).map g) := by
  unfold selectBy admits
  cases wanted with
  | none => simp
  | some s =>
    by_cases hs : s.isEmpty = true
    · simp [hs]
    · simp only [hs, Bool.false_eq_true, if_false, Bool.false_or]
      exact select_map (h s)

/-- If a selection succeeds, so does the test of each value. -/
theorem exists_of_select_eq_ok {test : Value → Except LogError Bool} {vs found : List Value}
    (h : select test vs = .ok found) : ∀ v ∈ vs, ∃ b, test v = .ok b := by
  induction vs generalizing found with
  | nil => exact List.forall_mem_nil _
  | cons v vs ih =>
    rw [select] at h
    cases hv : test v with
    | error e =>
      rw [hv] at h
      cases h
    | ok b =>
      rw [hv] at h
      cases hrest : select test vs with
      | error e =>
        rw [hrest] at h
        cases h
      | ok rest => exact List.forall_mem_cons.mpr ⟨⟨b, hv⟩, ih hrest⟩

/-- Records that can be searched are searched, and those that are asked for are given. -/
theorem answer_records (q : Query) {records : List Fields}
    (h : ∀ fs ∈ records, IsSearchable (.record fs)) :
    q.answer (records.map .record) = .ok (q.wanted records) := by
  have hfilter {fss : List Fields} (p : Fields → Bool)
      (hfss : ∀ fs ∈ fss, IsSearchable (.record fs)) :
      ∀ fs ∈ fss.filter p, IsSearchable (.record fs) :=
    fun fs hfs => hfss fs (List.mem_of_mem_filter hfs)
  have hfield (name : String) (wanted : Option String) (fss : List Fields) :
      selectBy (fieldIs name) wanted (fss.map .record) =
        .ok ((fss.filter fun fs => admits wanted (textOf fs name)).map .record) :=
    selectBy_map wanted fun s fs _ => fieldIs_record fs name s
  have hhash (wanted : Option String) {fss : List Fields}
      (hfss : ∀ fs ∈ fss, IsSearchable (.record fs)) :
      selectBy hashIs wanted (fss.map .record) =
        .ok ((fss.filter fun fs => admits wanted (hashOf fs)).map .record) :=
    selectBy_map wanted fun s fs hfs => hashIs_record (hfss fs hfs) s
  have hpasses : records.filter q.passes =
      ((records.filter fun fs => admits q.level (textOf fs "level")).filter
        fun fs => admits q.kind (textOf fs "event_type")).filter
          fun fs => admits q.hash (hashOf fs) := by
    rw [List.filter_filter, List.filter_filter]
    refine List.filter_congr fun fs _ => ?_
    simp only [passes, Bool.and_assoc, Bool.and_comm]
  unfold answer wanted
  simp only [hfield, hhash _ (hfilter _ (hfilter _ h)), hpasses, bind, Except.bind, pure,
    Except.pure, List.length_map, List.map_take, List.map_reverse]

end Query

end PayrollFormula
