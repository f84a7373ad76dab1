import PayrollFormula.Proofs.Json.RoundTrip

/-!
# What writing leaves of a value

A value is written as its image is (`write_image`), and in the image everything has a form in JSON.
So what is read of a written value is its image, with the fields in order (`read_write_image`).
-/

set_option autoImplicit false

namespace PayrollFormula

namespace Json

/-! ## Images part by part -/

/-- The image of elements is the image of each. -/
theorem imageItems_eq_map (vs : List Value) : imageItems vs = vs.map image := by
  induction vs with
  | nil => rfl
  | cons v vs ih => rw [imageItems, ih, List.map_cons]

/-- The image of fields is the image of each value. -/
theorem imageFields_eq_map (fs : Fields) : imageFields fs = fs.map fun f => (f.1, image f.2) := by
  induction fs with
  | nil => rfl
  | cons f fs ih => rw [imageFields, ih, List.map_cons]

/-- The image of a list has the images of its elements. -/
theorem image_list (vs : List Value) : image (.list vs) = .list (vs.map image) := by
  rw [image, imageItems_eq_map]

/-- The image of a record has the images of its fields. -/
theorem image_record (fs : Fields) :
    image (.record fs) = .record (fs.map fun f => (f.1, image f.2)) := by
  rw [image, imageFields_eq_map]

/-- The image of a value without parts has none either. -/
theorem isAtom_image {v : Value} (hatom : v.isAtom = true) : (image v).isAtom = true := by
  cases v with
  | list | record => cases hatom
  | double x => cases x <;> rfl
  | _ => rfl

/-! ## Writing an image -/

/-- A value and its image have the same text. -/
theorem write_image (v : Value) : write (image v) = write v := by
  induction v using Value.induction with
  | atom v hatom =>
    cases v with
    | list | record => cases hatom
    | double x => cases x <;> rfl
    | _ => rfl
  | list vs ih =>
    rw [image_list, write_list, write_list, List.map_map]
    exact congrArg (fun parts => '[' :: (joined parts ++ [']'])) (List.map_congr_left ih)
  | record fs ih =>
    rw [image_record, write_record, write_record, Fields.sorted_map, List.map_map]
    refine congrArg (fun parts => '\x7b' :: (joined parts ++ ['\x7d'])) ?_
    refine List.map_congr_left fun f hf => ?_
    simp only [Function.comp_apply, ih f (Fields.mem_sorted.mp hf)]

/-- The image of a value has no more levels. -/
theorem levels_image_le (v : Value) : levels (image v) ≤ levels v := by
  induction v using Value.induction with
  | atom v hatom => rw [levels_atom hatom, levels_atom (isAtom_image hatom)]
  | list vs ih =>
    rw [image_list, levels, levels, Nat.add_le_add_iff_right, itemLevels_le_iff]
    intro w hw
    obtain ⟨v, hv, rfl⟩ := List.mem_map.mp hw
    exact Nat.le_trans (ih v hv) (itemLevels_le_iff.mp (Nat.le_refl _) v hv)
  | record fs ih =>
    rw [image_record, levels, levels, Nat.add_le_add_iff_right, fieldLevels_le_iff]
    intro g hg
    obtain ⟨f, hf, rfl⟩ := List.mem_map.mp hg
    exact Nat.le_trans (ih f hf) (fieldLevels_le_iff.mp (Nat.le_refl _) f hf)

/-- What holds everywhere in a value holds everywhere in its image, if it is kept by each of the
changes that an image makes. -/
theorem everywhere_image {P Q : Value → Prop}
    (hatom : ∀ v, v.isAtom = true → P v → Q (image v)) (hlist : ∀ vs, Q (.list vs))
    (hrecord : ∀ fs gs : Fields, gs.names = fs.names → P (.record fs) → Q (.record gs))
    {v : Value} (h : v.Everywhere P) : (image v).Everywhere Q := by
  induction v using Value.induction with
  | atom v hv =>
    rw [Value.everywhere_atom (isAtom_image hv)]
    exact hatom v hv ((Value.everywhere_atom hv).mp h)
  | list vs ih =>
    obtain ⟨-, hparts⟩ := Value.everywhere_list.mp h
    rw [image_list, Value.everywhere_list]
    refine ⟨hlist _, fun w hw => ?_⟩
    obtain ⟨v, hv, rfl⟩ := List.mem_map.mp hw
    exact ih v hv (hparts v hv)
  | record fs ih =>
    obtain ⟨hself, hparts⟩ := Value.everywhere_record.mp h
    rw [image_record, Value.everywhere_record]
    refine ⟨hrecord fs _ (Fields.names_map image fs) hself, fun g hg => ?_⟩
    obtain ⟨f, hf, rfl⟩ := List.mem_map.mp hg
    exact ih f hf (hparts f hf)

/-- The image of a value has a long integer only if the value has one. -/
theorem hasLongInteger_image {v : Value} (h : hasLongInteger v = false) :
    hasLongInteger (image v) = false := by
  rw [hasLongInteger_eq_false_iff] at h ⊢
  refine everywhere_image (fun v hatom hshort => ?_) (fun _ => trivial) (fun _ _ _ _ => trivial) h
  cases v with
  | list | record => cases hatom
  | int i => exact hshort
  | double x => cases x <;> trivial
  | _ => trivial

/-- In the image of a value everything has a form in JSON. -/
theorem isPlain_image {v : Value} (h : v.Everywhere Value.HasDistinctNames) :
    (image v).Everywhere IsPlain := by
  refine everywhere_image (fun v hatom _ => ?_) (fun _ => trivial) (fun fs gs hnames hfs => ?_) h
  · cases v with
    | list | record => cases hatom
    | double x =>
      cases x with
      | finite => rfl
      | infinite | nan => trivial
    | _ => trivial
  · show (Fields.names gs).Nodup
    rw [hnames]
    exact hfs

/-- What is written is read back as its image, with its fields in order. -/
theorem read_write_image {v : Value} (hnames : v.Everywhere Value.HasDistinctNames)
    (hshort : hasLongInteger v = false) (hlevels : levels v ≤ maxOpen) :
    read (write v) = .ok (image v).arranged := by
  rw [← write_image]
  exact read_write (isPlain_image hnames) (hasLongInteger_image hshort)
    ((levels_image_le v).trans hlevels)

/-- What is read of a written value is the same as its image. -/
theorem same_image {v : Value} (hnames : v.Everywhere Value.HasDistinctNames) :
    Value.Same (image v).arranged (image v) :=
  same_arranged_of_isPlain (isPlain_image hnames)

end Json

end PayrollFormula
