import Mathlib.Data.List.Basic
import Mathlib.Data.List.Forall2
import PayrollFormula.Json.Written
import PayrollFormula.Proofs.Value

/-!
# Values with their fields in order

JSON leaves open in which order the fields of a record stand, and writing puts them in the order of
their names. `Value.Same` is equality up to this order at all depths; a value whose names are
distinct is the same as the one with all fields in order (`same_arranged`).
-/

set_option autoImplicit false

namespace PayrollFormula

namespace Fields

variable {fs gs : Fields} {name : String} {v : Value}

/-! ## Fields in another order -/

/-- Under distinct names, a name has a value exactly if they are together a field. -/
theorem get?_eq_some_iff (hnodup : fs.names.Nodup) : fs.get? name = some v ↔ (name, v) ∈ fs := by
  refine ⟨mem_of_get?, fun h => ?_⟩
  induction fs with
  | nil => cases h
  | cons f fs ih =>
    obtain ⟨hf, hrest⟩ := List.nodup_cons.mp hnodup
    rw [get?_cons]
    rcases List.mem_cons.mp h with rfl | h
    · exact if_pos rfl
    · have hne : name ≠ f.1 := by
        rintro rfl
        exact hf (List.mem_map.mpr ⟨_, h, rfl⟩)
      rw [if_neg hne]
      exact ih hrest h

/-- What stands under a name does not depend on the order of the fields. -/
theorem get?_eq_of_perm (h : fs.Perm gs) (hnodup : fs.names.Nodup) :
    fs.get? name = gs.get? name := by
  have hnodup' : gs.names.Nodup := (h.map Prod.fst).nodup_iff.mp hnodup
  refine Option.ext fun v => ?_
  rw [get?_eq_some_iff hnodup, get?_eq_some_iff hnodup', h.mem_iff]

/-- If the values are changed, so is the value of a name. -/
theorem get?_map (g : Value → Value) (fs : Fields) (name : String) :
    get? (fs.map fun f => (f.1, g f.2)) name = (fs.get? name).map g := by
  induction fs with
  | nil => rfl
  | cons f fs ih =>
    rw [List.map_cons, get?_cons, get?_cons, ih]
    split <;> rfl

/-- If the values are changed, the names stay. -/
theorem names_map (g : Value → Value) (fs : Fields) :
    names (fs.map fun f => (f.1, g f.2)) = fs.names := by
  simp [names]

/-- Setting a field that there is not puts it at the end. -/
theorem set_of_not_mem (h : name ∉ fs.names) : set name v fs = fs ++ [(name, v)] := by
  induction fs with
  | nil => rfl
  | cons f fs ih =>
    simp only [names, List.map_cons, List.mem_cons, not_or] at h
    rw [set, if_neg (Ne.symm h.1), ih h.2]
    rfl

/-- Setting fields that there are not puts them at the end, one after another. -/
theorem update_of_nodup (h : (names (fs ++ gs)).Nodup) : fs.update gs = fs ++ gs := by
  unfold update
  induction gs generalizing fs with
  | nil => exact (List.append_nil fs).symm
  | cons g gs ih =>
    have hsplit : fs ++ g :: gs = (fs ++ [(g.1, g.2)]) ++ gs := by simp
    have hg : g.1 ∉ fs.names := by
      intro hmem
      unfold names at h hmem
      rw [List.map_append, List.nodup_append] at h
      exact h.2.2 g.1 hmem g.1 List.mem_cons_self rfl
    rw [List.foldl_cons, set_of_not_mem hg, hsplit]
    exact ih (by rwa [← hsplit])

/-! ## Fields in the order of their names -/

/-- Fields in the order of their names. -/
def sorted (fs : Fields) : Fields := fs.mergeSort fun f g => decide (f.1 ≤ g.1)

/-- The fields in order are the same fields. -/
theorem sorted_perm (fs : Fields) : fs.sorted.Perm fs := List.mergeSort_perm fs _

/-- The fields in order have the same members. -/
theorem mem_sorted {f : String × Value} : f ∈ fs.sorted ↔ f ∈ fs := (sorted_perm fs).mem_iff

/-- Values may be changed before the fields are put in order or after. -/
theorem sorted_map (g : Value → Value) (fs : Fields) :
    sorted (fs.map fun f => (f.1, g f.2)) = fs.sorted.map fun f => (f.1, g f.2) :=
  (List.map_mergeSort (f := fun f : String × Value => (f.1, g f.2)) fun _ _ _ _ => rfl).symm

end Fields

namespace Value

mutual

/-- The value with the fields of every record in the order of their names. -/
def arranged : Value → Value
  | .list items => .list (arrangedItems items)
  | .record fields => .record (Fields.sorted (arrangedFields fields))
  | v => v

/-- The elements of a list, each with its fields in order. -/
def arrangedItems : List Value → List Value
  | [] => []
  | v :: vs => arranged v :: arrangedItems vs

/-- The fields of a record, each with the fields of its value in order. -/
def arrangedFields : List (String × Value) → List (String × Value)
  | [] => []
  | (name, v) :: rest => (name, arranged v) :: arrangedFields rest

end

/-- The elements of a list are put in order one by one. -/
theorem arrangedItems_eq_map (vs : List Value) : arrangedItems vs = vs.map arranged := by
  induction vs with
  | nil => rfl
  | cons v vs ih => rw [arrangedItems, ih, List.map_cons]

/-- The values of fields are put in order one by one. -/
theorem arrangedFields_eq_map (fs : Fields) :
    arrangedFields fs = fs.map fun f => (f.1, f.2.arranged) := by
  induction fs with
  | nil => rfl
  | cons f fs ih => rw [arrangedFields, ih, List.map_cons]

/-- A value without parts has nothing to put in order. -/
theorem arranged_atom {v : Value} (hv : v.isAtom = true) : v.arranged = v := by
  cases v with
  | list | record => cases hv
  | _ => rfl

/-- In a list, each element is put in order. -/
theorem arranged_list (vs : List Value) : (Value.list vs).arranged = .list (vs.map arranged) := by
  rw [arranged, arrangedItems_eq_map]

/-- In a record, the fields are put in order and so is the value of each. -/
theorem arranged_record (fs : Fields) :
    (Value.record fs).arranged = .record (fs.sorted.map fun f => (f.1, f.2.arranged)) := by
  rw [arranged, arrangedFields_eq_map, Fields.sorted_map]

/-- What stands under a name in fields that were put in order. -/
theorem get?_arranged {fs : Fields} (hnodup : fs.names.Nodup) (name : String) :
    Fields.get? (fs.sorted.map fun f => (f.1, f.2.arranged)) name =
      (fs.get? name).map arranged := by
  have hsorted : fs.sorted.names.Nodup := ((fs.sorted_perm.map Prod.fst).nodup_iff).mpr hnodup
  rw [Fields.get?_map, Fields.get?_eq_of_perm fs.sorted_perm hsorted]

/-! ## Equality up to the order of fields -/

/-- Whether two values are equal but for the order in which the fields of records stand. -/
inductive Same : Value → Value → Prop where
  | atom {v : Value} : v.isAtom = true → Same v v
  | list {vs ws : List Value} : List.Forall₂ Same vs ws → Same (.list vs) (.list ws)
  | record {fs gs : Fields} :
      (∀ name, Option.Rel Same (fs.get? name) (gs.get? name)) → Same (.record fs) (.record gs)

/-- Whether the names of a value's own fields are distinct. -/
def HasDistinctNames : Value → Prop
  | .record fs => (Fields.names fs).Nodup
  | _ => True

/-- Putting fields in order leaves a value the same, if no record has two fields of one name. -/
theorem same_arranged {v : Value} (hv : v.Everywhere HasDistinctNames) : Same v.arranged v := by
  induction v using Value.induction with
  | atom v hatom =>
    rw [arranged_atom hatom]
    exact .atom hatom
  | list vs ih =>
    obtain ⟨-, hparts⟩ := everywhere_list.mp hv
    rw [arranged_list]
    refine .list (List.forall₂_map_left_iff.mpr (List.forall₂_same.mpr ?_))
    exact fun v hmem => ih v hmem (hparts v hmem)
  | record fs ih =>
    obtain ⟨hnodup, hparts⟩ := everywhere_record.mp hv
    rw [arranged_record]
    refine .record fun name => ?_
    rw [get?_arranged hnodup]
    cases h : fs.get? name with
    | none => exact .none
    | some v =>
      have hmem := Fields.mem_of_get? h
      exact .some (ih _ hmem (hparts _ hmem))

end Value

end PayrollFormula
