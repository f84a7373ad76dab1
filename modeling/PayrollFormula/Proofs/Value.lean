import PayrollFormula.Value

/-!
# Values and what is inside them

`Value.induction` is the induction over the elements of lists and the fields of records.
`Value.Within` says that a value stands somewhere inside another, at whatever depth, and
`Value.Everywhere` that something holds of all that stands inside a value. After that come the laws
of setting fields.
-/

set_option autoImplicit false

namespace PayrollFormula

namespace Value

/-- Whether a value is neither a list nor a record. -/
def isAtom : Value → Bool
  | .list _ | .record _ => false
  | _ => true

/-- A property of all values without parts that lists inherit from their elements and records from
their fields holds of all values. -/
@[elab_as_elim]
theorem induction {P : Value → Prop} (atom : ∀ v, v.isAtom = true → P v)
    (list : ∀ vs, (∀ v ∈ vs, P v) → P (.list vs))
    (record : ∀ fs : Fields, (∀ f ∈ fs, P f.2) → P (.record fs)) (v : Value) : P v := by
  refine Value.rec (motive_1 := P) (motive_2 := fun vs => ∀ v ∈ vs, P v)
    (motive_3 := fun fs => ∀ f ∈ fs, P f.2) (motive_4 := fun f => P f.2)
    (atom _ rfl) (fun _ => atom _ rfl) (fun _ => atom _ rfl) (fun _ => atom _ rfl)
    (fun _ => atom _ rfl) (fun _ => atom _ rfl) (fun _ => atom _ rfl) list record
    ?_ ?_ ?_ ?_ ?_ v
  · intro v hv
    cases hv
  · intro v vs hv hvs w hw
    rcases List.mem_cons.mp hw with rfl | hw
    · exact hv
    · exact hvs w hw
  · intro f hf
    cases hf
  · intro f fs hf hfs g hg
    rcases List.mem_cons.mp hg with rfl | hg
    · exact hf
    · exact hfs g hg
  · intro name v hv
    exact hv

/-- Whether a value stands somewhere inside another one, or is that one. -/
inductive Within : Value → Value → Prop where
  | self (v : Value) : Within v v
  | element {u v : Value} {vs : List Value} : v ∈ vs → Within u v → Within u (.list vs)
  | field {u : Value} {f : String × Value} {fs : Fields} :
      f ∈ fs → Within u f.2 → Within u (.record fs)

/-- A value without parts has only itself within it. -/
theorem within_atom {u v : Value} (hv : v.isAtom = true) : Within u v ↔ u = v := by
  constructor
  · intro h
    cases h with
    | self => rfl
    | element | field => cases hv
  · rintro rfl
    exact .self _

/-- Within a list are the list and what is within its elements. -/
theorem within_list {u : Value} {vs : List Value} :
    Within u (.list vs) ↔ u = .list vs ∨ ∃ v ∈ vs, Within u v := by
  constructor
  · intro h
    cases h with
    | self => exact .inl rfl
    | element hv h => exact .inr ⟨_, hv, h⟩
  · rintro (rfl | ⟨v, hv, h⟩)
    · exact .self _
    · exact .element hv h

/-- Within a record are the record and what is within its fields. -/
theorem within_record {u : Value} {fs : Fields} :
    Within u (.record fs) ↔ u = .record fs ∨ ∃ f ∈ fs, Within u f.2 := by
  constructor
  · intro h
    cases h with
    | self => exact .inl rfl
    | field hf h => exact .inr ⟨_, hf, h⟩
  · rintro (rfl | ⟨f, hf, h⟩)
    · exact .self _
    · exact .field hf h

/-- Whether a property holds of a value and of all that stands inside it. -/
def Everywhere (P : Value → Prop) (w : Value) : Prop := ∀ v, Within v w → P v

variable {P : Value → Prop}

/-- A value without parts has a property everywhere if it has it. -/
theorem everywhere_atom {v : Value} (hv : v.isAtom = true) : Everywhere P v ↔ P v := by
  unfold Everywhere
  simp only [within_atom hv, forall_eq]

/-- A list has a property everywhere if it has it and each element has it everywhere. -/
theorem everywhere_list {vs : List Value} :
    Everywhere P (.list vs) ↔ P (.list vs) ∧ ∀ v ∈ vs, Everywhere P v := by
  unfold Everywhere
  simp only [within_list]
  constructor
  · intro h
    exact ⟨h _ (.inl rfl), fun v hv u hu => h u (.inr ⟨v, hv, hu⟩)⟩
  · rintro ⟨hself, hparts⟩ u (rfl | ⟨v, hv, hu⟩)
    · exact hself
    · exact hparts v hv u hu

/-- A record has a property everywhere if it has it and the value of each field has it everywhere.
-/
theorem everywhere_record {fs : Fields} :
    Everywhere P (.record fs) ↔ P (.record fs) ∧ ∀ f ∈ fs, Everywhere P f.2 := by
  unfold Everywhere
  simp only [within_record]
  constructor
  · intro h
    exact ⟨h _ (.inl rfl), fun f hf u hu => h u (.inr ⟨f, hf, hu⟩)⟩
  · rintro ⟨hself, hparts⟩ u (rfl | ⟨f, hf, hu⟩)
    · exact hself
    · exact hparts f hf u hu

end Value

namespace Fields

variable {fs gs : Fields} {f : String × Value} {name other : String} {v : Value}

/-- A name has no value exactly if no field has the name. -/
theorem get?_eq_none_iff : fs.get? name = none ↔ name ∉ fs.names := by
  unfold get? names
  rw [List.lookup_eq_none_iff, List.mem_map]
  constructor
  · rintro h ⟨f, hf, rfl⟩
    simpa using h f hf
  · intro h f hf
    rw [bne_iff_ne]
    rintro rfl
    exact h ⟨f, hf, rfl⟩

/-- A name and its value are a field. -/
theorem mem_of_get? (h : fs.get? name = some v) : (name, v) ∈ fs := by
  obtain ⟨before, after, rfl, -⟩ := List.lookup_eq_some_iff.mp h
  exact List.mem_append_right before List.mem_cons_self

/-- Setting a field leaves nothing but it and the fields that there were. -/
theorem eq_or_mem_of_mem_set (h : f ∈ set name v fs) : f = (name, v) ∨ f ∈ fs := by
  induction fs with
  | nil => exact .inl (List.mem_singleton.mp h)
  | cons g rest ih =>
    obtain ⟨n, w⟩ := g
    rw [set] at h
    split at h
    · next hn =>
      rw [← hn]
      exact (List.mem_cons.mp h).imp_right (List.mem_cons_of_mem _)
    · rcases List.mem_cons.mp h with rfl | h
      · exact .inr List.mem_cons_self
      · exact (ih h).imp_right (List.mem_cons_of_mem _)

/-- The first field of a name has its value. -/
theorem get?_cons (f : String × Value) (fs : Fields) (name : String) :
    get? (f :: fs) name = if name = f.1 then some f.2 else fs.get? name := by
  unfold get?
  rw [List.lookup_cons]
  by_cases h : name = f.1
  · simp [h]
  · rw [beq_eq_false_iff_ne.mpr h, if_neg h]

/-- Setting a field changes the value of its name only. -/
theorem get?_set :
    (set name v fs).get? other = if other = name then some v else fs.get? other := by
  induction fs with
  | nil => rw [set, get?_cons]
  | cons g rest ih =>
    obtain ⟨n, w⟩ := g
    rw [set]
    by_cases hn : n = name
    · rw [if_pos hn, get?_cons, get?_cons, hn]
      by_cases h : other = name <;> simp [h]
    · rw [if_neg hn, get?_cons, get?_cons, ih]
      by_cases h : other = n
      · simp [h, hn]
      · simp [h]

/-- A field that is set stands where one of its name was, or at the end. -/
theorem names_set : (set name v fs).names =
    if name ∈ fs.names then fs.names else fs.names ++ [name] := by
  induction fs with
  | nil => rfl
  | cons g rest ih =>
    obtain ⟨n, w⟩ := g
    rw [set]
    by_cases h : n = name
    · simp [h, names]
    · have hne : name ≠ n := Ne.symm h
      unfold names at ih ⊢
      rw [if_neg h, List.map_cons, ih]
      by_cases hrest : name ∈ rest.map Prod.fst <;> simp [hrest, hne]

/-- Setting a field keeps the names distinct. -/
theorem nodup_names_set (h : fs.names.Nodup) : (set name v fs).names.Nodup := by
  rw [names_set]
  split
  · exact h
  · next hname =>
    refine List.nodup_append.mpr ⟨h, by simp, ?_⟩
    rintro n hn m hm rfl
    exact hname (List.mem_singleton.mp hm ▸ hn)

/-- Updating fields keeps their names distinct. -/
theorem nodup_names_update (h : fs.names.Nodup) : (fs.update gs).names.Nodup := by
  unfold update
  induction gs generalizing fs with
  | nil => exact h
  | cons g rest ih => exact ih (nodup_names_set h)

/-- A field that was set is what it was set to, and every other field is as it was. -/
theorem get?_update (h : gs.names.Nodup) :
    (fs.update gs).get? name = (gs.get? name).or (fs.get? name) := by
  unfold update
  induction gs generalizing fs with
  | nil => rfl
  | cons g rest ih =>
    obtain ⟨hg, hrest⟩ := List.nodup_cons.mp h
    rw [List.foldl_cons, ih hrest, get?_set, get?_cons]
    by_cases hname : name = g.1
    · rw [hname, get?_eq_none_iff.mpr hg]
      simp
    · simp [hname]

/-- Erasing a name takes away its value only. -/
theorem get?_erase : (fs.erase name).get? other = if other = name then none else fs.get? other := by
  unfold erase
  induction fs with
  | nil => simp [get?]
  | cons g rest ih =>
    rw [List.filter_cons, get?_cons]
    by_cases hg : g.1 = name
    · simp only [hg, ne_eq, not_true_eq_false, decide_false, Bool.false_eq_true, if_false, ih]
      by_cases hother : other = name <;> simp [hother]
    · simp only [hg, ne_eq, not_false_eq_true, decide_true, if_true, get?_cons, ih]
      by_cases hother : other = g.1
      · simp [hother, hg]
      · simp [hother]

/-- Erasing a name keeps the names distinct. -/
theorem nodup_names_erase (h : fs.names.Nodup) : (fs.erase name).names.Nodup :=
  h.sublist (List.filter_sublist.map Prod.fst)

end Fields

end PayrollFormula
