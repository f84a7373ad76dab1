import Mathlib.Data.List.Perm.Basic
import PayrollFormula.Proofs.Number.Order
import PayrollFormula.Proofs.Value
import PayrollFormula.Settings

/-!
# Sound settings

Loaded settings should have every known key with a value of its kind and within its range, and what
is no such settings should be refused. Three things slip through: a document that is no mapping but
empty or zero counts as an empty one, an undefined number is not below zero and so passes for a
tolerance, and an integer beyond the range of doubles fails without a refusal. The promise is kept
but for these (`load_kept_iff`).
-/

set_option autoImplicit false

namespace PayrollFormula

/-- Whether an error refuses what was handed in; the only one that does not is the failure of a
conversion. -/
def SettingsError.IsRefusal : SettingsError → Prop
  | .number _ => False
  | _ => True

namespace Settings

/-! ## The promise -/

/-- Whether there is an integer of at least one under a key. -/
def HasCount (fields : Fields) (key : String) : Prop :=
  ∃ i, fields.get? key = some (.int i) ∧ 1 ≤ i

/-- Whether there is a truth value under a key. -/
def HasFlag (fields : Fields) (key : String) : Prop := ∃ b, fields.get? key = some (.bool b)

/-- Whether a record has the known keys and no others, integers of at least one for the numbers,
doubles that are at least zero for the tolerances and truth values for the switches. -/
structure IsSound (fields : Fields) : Prop where
  names : fields.names.Perm keys
  length : HasCount fields lengthKey
  depth : ∃ i, fields.get? depthKey = some (.int i) ∧ 1 ≤ i ∧ i ≤ 150
  tail : HasCount fields tailKey
  relative : ∃ t, fields.get? relativeKey = some (.double t) ∧ Double.zero.le t = true
  absolute : ∃ t, fields.get? absoluteKey = some (.double t) ∧ Double.zero.le t = true
  enabled : HasFlag fields enabledKey
  fsync : HasFlag fields fsyncKey

/-- Whether a document, if there is one, is empty or a mapping. -/
def IsMapping (document : Option Value) : Prop :=
  ∀ v, document = some v → v = .null ∨ ∃ fields, v = .record fields

/-- What is promised of loading settings: that they are sound and the document is empty or a
mapping, or that something is refused. -/
def Kept (document : Option Value) : Except SettingsError Settings → Prop
  | .ok s => IsSound s.toFields ∧ IsMapping document
  | .error err => err.IsRefusal

/-! ## What passes the checks -/

/-- The record that is checked: the defaults, changed by a document and by overrides. -/
def merged (place : String) (document : Option Value) (overrides : Fields) :
    Except SettingsError Fields := do
  let fields ← withDocument place document
  return fields.update (← flatten overrides)

/-- Whether a number is taken for the tolerance under a key: a double there that is not below zero,
or the double of an integer that is not. -/
def HasTolerance (fields : Fields) (key : String) (x : Double) : Prop :=
  x.belowZero = false ∧ (fields.get? key = some (.double x) ∨
    ∃ i, fields.get? key = some (.int i) ∧ 0 ≤ i ∧ Double.ofInt i = .ok x)

/-- Whether there is an integer under a key that is not below zero but beyond the range of
doubles. -/
def HasTooLarge (fields : Fields) (key : String) : Prop :=
  ∃ i err, fields.get? key = some (.int i) ∧ 0 ≤ i ∧ Double.ofInt i = .error err

/-- Whether a record passes the checks of its keys and numbers, which come first. -/
structure CountsPass (fields : Fields) : Prop where
  known : ∀ name ∈ fields.names, name ∈ keys
  length : HasCount fields lengthKey
  depth : ∃ i, fields.get? depthKey = some (.int i) ∧ 1 ≤ i ∧ i ≤ maxDepthLimit
  tail : HasCount fields tailKey

/-- Whether a record passes all checks, and with which tolerances. -/
structure Passes (fields : Fields) (relative absolute : Double) : Prop where
  counts : CountsPass fields
  relative : HasTolerance fields relativeKey relative
  absolute : HasTolerance fields absoluteKey absolute
  enabled : HasFlag fields enabledKey
  fsync : HasFlag fields fsyncKey

/-- Whether settings are what is read of a record. -/
structure Reads (fields : Fields) (s : Settings) : Prop where
  length : fields.get? lengthKey = some (.int s.limits.maxLength)
  depth : fields.get? depthKey = some (.int s.limits.maxDepth)
  relative : HasTolerance fields relativeKey s.tolerances.relative
  absolute : HasTolerance fields absoluteKey s.tolerances.absolute
  enabled : fields.get? enabledKey = some (.bool s.loggingEnabled)
  fsync : fields.get? fsyncKey = some (.bool s.loggingFsync)
  tail : fields.get? tailKey = some (.int s.tailBytes)

/-- Whether the checks of a record are cut short by a tolerance beyond the range of doubles. -/
inductive Overflows (fields : Fields) : Prop where
  | relative : CountsPass fields → HasTooLarge fields relativeKey → Overflows fields
  | absolute {x : Double} : CountsPass fields → HasTolerance fields relativeKey x →
      HasTooLarge fields absoluteKey → Overflows fields

/-- The ways in which a document and the merged record evade the checks: a tolerance is too large to
be converted, a tolerance is undefined, or the document is no mapping and counts as empty. -/
inductive Evades (document : Option Value) (fields : Fields) : Prop where
  | tooLarge : Overflows fields → Evades document fields
  | undefined {x y : Double} : Passes fields x y → x = .nan ∨ y = .nan → Evades document fields
  | noMapping {x y : Double} : Passes fields x y → ¬ IsMapping document → Evades document fields

/-! ## One check after another -/

section Settles

variable {α β : Type} {C D E F : Prop} {Q : α → Prop} {R : β → Prop}

/-- Whether a check passes exactly if `C` holds, and then with a result that has the property `Q`,
and fails without a refusal exactly if `E` holds. -/
def Settles (C E : Prop) (Q : α → Prop) : Except SettingsError α → Prop
  | .ok a => C ∧ ¬ E ∧ Q a
  | .error err => ¬ C ∧ (err.IsRefusal ↔ ¬ E)

/-- A value with the property settles what holds. -/
theorem settles_ok {a : α} (hC : C) (ha : Q a) : Settles C False Q (.ok a) :=
  ⟨hC, not_false, ha⟩

/-- A refusal settles what does not hold. -/
theorem settles_refusal {err : SettingsError} (hC : ¬ C) (herr : err.IsRefusal) :
    Settles C False Q (.error err) :=
  ⟨hC, iff_of_true herr not_false⟩

/-- The conditions may be replaced by equivalent ones. -/
theorem Settles.congr {x : Except SettingsError α} (h : Settles C E Q x) (hC : C ↔ D)
    (hE : E ↔ F) : Settles D F Q x := by
  rwa [← hC, ← hE]

/-- The second of two checks is made only if the first one passes. -/
theorem Settles.bind {x : Except SettingsError α} {f : α → Except SettingsError β}
    (hx : Settles C E Q x) (hf : ∀ a, Q a → Settles D F R (f a)) :
    Settles (C ∧ D) (E ∨ C ∧ F) R (x >>= f) := by
  cases x with
  | error err =>
    obtain ⟨hC, herr⟩ := hx
    refine ⟨fun h => hC h.1, ?_⟩
    simp [herr, hC]
  | ok a =>
    obtain ⟨hC, hE, ha⟩ := hx
    refine (hf a ha).congr ?_ ?_
    · simp [hC]
    · simp [hC, hE]

end Settles

/-- A count is read exactly if the field has one. -/
theorem settles_positive (fields : Fields) (key : String) :
    Settles (HasCount fields key) False (fun i => fields.get? key = some (.int i) ∧ 1 ≤ i)
      (positive fields key) := by
  unfold positive HasCount
  cases fields.get? key with
  | none => exact settles_refusal (by simp) trivial
  | some v =>
    cases v with
    | int i =>
      by_cases h : 1 ≤ i
      · simp only [Option.getD_some, if_pos h]
        exact settles_ok ⟨i, rfl, h⟩ ⟨rfl, h⟩
      · simp only [Option.getD_some, if_neg h]
        exact settles_refusal (by simp [h]) trivial
    | _ => exact settles_refusal (by simp) trivial

/-- A flag is read exactly if the field has one. -/
theorem settles_flag (fields : Fields) (key : String) :
    Settles (HasFlag fields key) False (fun b => fields.get? key = some (.bool b))
      (flag fields key) := by
  unfold flag HasFlag
  cases fields.get? key with
  | none => exact settles_refusal (by simp) trivial
  | some v =>
    cases v with
    | bool b => exact settles_ok ⟨b, rfl⟩ rfl
    | _ => exact settles_refusal (by simp) trivial

/-- The limits are made exactly if the depth is within the greatest one allowed. -/
theorem settles_limitsOf {fields : Fields} {m d : Int} (hm : 1 ≤ m)
    (hd : fields.get? depthKey = some (.int d) ∧ 1 ≤ d) :
    Settles (∃ i, fields.get? depthKey = some (.int i) ∧ 1 ≤ i ∧ i ≤ maxDepthLimit) False
      (fun limits => (limits.maxLength : Int) = m ∧ (limits.maxDepth : Int) = d)
      (limitsOf m d) := by
  obtain ⟨hget, hpos⟩ := hd
  unfold limitsOf
  by_cases h : d ≤ maxDepthLimit
  · rw [dif_pos ⟨hm, hpos, h⟩]
    have hm' : 0 ≤ m := by omega
    have hd' : 0 ≤ d := by omega
    exact settles_ok ⟨d, hget, hpos, h⟩ ⟨Int.toNat_of_nonneg hm', Int.toNat_of_nonneg hd'⟩
  · rw [dif_neg fun hall => h hall.2.2]
    refine settles_refusal ?_ trivial
    rintro ⟨i, hi, -, hle⟩
    cases hget.symm.trans hi
    exact h hle

/-- A number is taken for a tolerance, or what stands there is refused unless it is too large. -/
theorem settles_tolerance (fields : Fields) (key : String) :
    Settles (∃ x, HasTolerance fields key x) (HasTooLarge fields key)
      (fun x => HasTolerance fields key x.1) (tolerance fields key) := by
  unfold tolerance HasTolerance HasTooLarge
  cases fields.get? key with
  | none => exact ⟨by simp, by simp [SettingsError.IsRefusal]⟩
  | some v =>
    cases v with
    | double x =>
      by_cases h : x.belowZero = false
      · simp only [Option.getD_some, dif_pos h]
        exact ⟨⟨x, h, .inl rfl⟩, by simp, h, .inl rfl⟩
      · simp only [Option.getD_some, dif_neg h]
        refine ⟨?_, by simp [SettingsError.IsRefusal]⟩
        rintro ⟨y, hy, hsome | ⟨i, hi, -⟩⟩
        · cases hsome
          exact h hy
        · cases hi
    | int i =>
      by_cases hi : i < 0
      · simp only [Option.getD_some, if_pos hi]
        refine ⟨?_, iff_of_true trivial ?_⟩
        · rintro ⟨x, -, hx | ⟨j, hj, hnot, -⟩⟩
          · cases hx
          · cases hj
            omega
        · rintro ⟨j, err, hj, hnot, -⟩
          cases hj
          omega
      · have hnot : 0 ≤ i := Int.not_lt.mp hi
        cases hx : Double.ofInt i with
        | error err =>
          simp only [Option.getD_some, if_neg hi, hx]
          exact ⟨by simp [hx], by simp [SettingsError.IsRefusal, hnot, hx]⟩
        | ok x =>
          have hsign := Double.belowZero_of_ofInt hnot hx
          have hpass : x.belowZero = false ∧ (some (Value.int i) = some (.double x) ∨
              ∃ j, some (Value.int i) = some (.int j) ∧ 0 ≤ j ∧ Double.ofInt j = .ok x) :=
            ⟨hsign, .inr ⟨i, rfl, hnot, hx⟩⟩
          simp only [Option.getD_some, if_neg hi, hx, dif_pos hsign]
          exact ⟨⟨x, hpass⟩, by simp [hx], hpass⟩
    | _ => exact ⟨by simp, by simp [SettingsError.IsRefusal]⟩

/-- A field has at most one tolerance. -/
theorem HasTolerance.unique {fields : Fields} {key : String} {x y : Double}
    (hx : HasTolerance fields key x) (hy : HasTolerance fields key y) : x = y := by
  obtain ⟨-, hx | ⟨i, hi, -, hx⟩⟩ := hx
  · obtain ⟨-, hy | ⟨j, hj, -⟩⟩ := hy
    · cases hx.symm.trans hy
      rfl
    · cases hx.symm.trans hj
  · obtain ⟨-, hy | ⟨j, hj, -, hy⟩⟩ := hy
    · cases hi.symm.trans hy
    · cases hi.symm.trans hj
      cases hx.symm.trans hy
      rfl

/-- If the counts pass, the depth is a count. -/
theorem CountsPass.hasCount_depth {fields : Fields} (h : CountsPass fields) :
    HasCount fields depthKey := by
  obtain ⟨i, hi, hpos, -⟩ := h.depth
  exact ⟨i, hi, hpos⟩

/-- A record that passes the checks is read as settings; any other is refused, unless a tolerance is
too large. -/
theorem settles_ofFields (fields : Fields) :
    Settles (∃ x y, Passes fields x y) (Overflows fields) (Reads fields) (ofFields fields) := by
  unfold ofFields
  cases hunknown : fields.names.filter fun k => !keys.contains k with
  | cons name rest =>
    have hnot : ¬ CountsPass fields := by
      intro hpass
      obtain ⟨hname, hcontains⟩ := List.mem_filter.mp (hunknown ▸ List.mem_cons_self)
      simp [hpass.known name hname] at hcontains
    refine ⟨fun ⟨x, y, h⟩ => hnot h.counts, iff_of_true trivial ?_⟩
    rintro (⟨h, -⟩ | ⟨h, -⟩) <;> exact hnot h
  | nil =>
    have hknown : ∀ name ∈ fields.names, name ∈ keys := by
      simpa [List.filter_eq_nil_iff] using hunknown
    -- The checks in their order; what is built from their results is built without another check.
    refine Settles.congr
      ((settles_positive fields lengthKey).bind fun m hm =>
        (settles_positive fields depthKey).bind fun d hd =>
        (settles_positive fields tailKey).bind fun t ht =>
        (settles_limitsOf hm.2 hd).bind fun limits hlimits =>
        (settles_tolerance fields relativeKey).bind fun x hx =>
        (settles_tolerance fields absoluteKey).bind fun y hy =>
        (settles_flag fields enabledKey).bind fun b hb =>
        (settles_flag fields fsyncKey).bind fun c hc =>
        show Settles True False _ _ by
          rw [dif_pos ht.2]
          have hpos : 0 ≤ t := Int.le_trans Int.one_nonneg ht.2
          have htail : (t.toNat : Int) = t := Int.toNat_of_nonneg hpos
          refine settles_ok trivial ⟨?_, ?_, hx, hy, hb, hc, ?_⟩
          · exact hm.1.trans (congrArg (some ∘ Value.int) hlimits.1.symm)
          · exact hd.1.trans (congrArg (some ∘ Value.int) hlimits.2.symm)
          · exact ht.1.trans (congrArg (some ∘ Value.int) htail.symm)) ?_ ?_
    · constructor
      · rintro ⟨hlength, -, htail, hdepth, ⟨x, hx⟩, ⟨y, hy⟩, henabled, hfsync, -⟩
        exact ⟨x, y, ⟨hknown, hlength, hdepth, htail⟩, hx, hy, henabled, hfsync⟩
      · rintro ⟨x, y, h, hx, hy, henabled, hfsync⟩
        exact ⟨h.length, h.hasCount_depth, h.tail, h.depth, ⟨x, hx⟩, ⟨y, hy⟩, henabled, hfsync,
          trivial⟩
    · simp only [false_or, or_false, and_false]
      constructor
      · rintro ⟨hlength, -, htail, hdepth, hlarge | ⟨⟨x, hx⟩, hlarge⟩⟩
        · exact .relative ⟨hknown, hlength, hdepth, htail⟩ hlarge
        · exact .absolute ⟨hknown, hlength, hdepth, htail⟩ hx hlarge
      · rintro (⟨h, hlarge⟩ | ⟨h, hx, hlarge⟩)
        · exact ⟨h.length, h.hasCount_depth, h.tail, h.depth, .inl hlarge⟩
        · exact ⟨h.length, h.hasCount_depth, h.tail, h.depth, .inr ⟨⟨_, hx⟩, hlarge⟩⟩

/-! ## Settings as records -/

/-- The record of settings passes the checks again. -/
theorem passes_toFields (s : Settings) :
    Passes s.toFields s.tolerances.relative s.tolerances.absolute where
  counts := {
    known := fun _ h => h
    length := ⟨_, rfl, by exact_mod_cast s.limits.maxLength_pos⟩
    depth := ⟨_, rfl, by exact_mod_cast s.limits.maxDepth_pos, by
      exact_mod_cast s.limits.maxDepth_le⟩
    tail := ⟨_, rfl, by exact_mod_cast s.tailBytes_pos⟩ }
  relative := ⟨s.tolerances.relative_nonneg, .inl rfl⟩
  absolute := ⟨s.tolerances.absolute_nonneg, .inl rfl⟩
  enabled := ⟨_, rfl⟩
  fsync := ⟨_, rfl⟩

/-- Settings are sound if neither tolerance is undefined: the rest is part of being settings. -/
theorem isSound_toFields_iff (s : Settings) :
    IsSound s.toFields ↔ s.tolerances.relative ≠ .nan ∧ s.tolerances.absolute ≠ .nan := by
  rw [← Double.zero_le_iff s.tolerances.relative_nonneg,
    ← Double.zero_le_iff s.tolerances.absolute_nonneg]
  constructor
  · intro h
    obtain ⟨x, hx, hxle⟩ := h.relative
    obtain ⟨y, hy, hyle⟩ := h.absolute
    cases hx
    cases hy
    exact ⟨hxle, hyle⟩
  · rintro ⟨hrelative, habsolute⟩
    have hpass := passes_toFields s
    exact ⟨.refl _, hpass.counts.length, hpass.counts.depth, hpass.counts.tail,
      ⟨_, rfl, hrelative⟩, ⟨_, rfl, habsolute⟩, hpass.enabled, hpass.fsync⟩

/-! ## Merging -/

/-- Loading makes the settings of the merged fields. -/
theorem load_eq (place : String) (document : Option Value) (overrides : Fields) :
    load place document overrides = merged place document overrides >>= ofFields := by
  unfold load merged
  cases withDocument place document with
  | error => rfl
  | ok fields => cases flatten overrides <;> rfl

/-- Loading depends on the merged fields only. -/
theorem load_of_merged {place : String} {document : Option Value} {overrides fields : Fields}
    (h : merged place document overrides = .ok fields) :
    load place document overrides = ofFields fields := by
  rw [load_eq, h]
  rfl

/-- A failure of one computation after another is a failure of the first or of the second. -/
theorem exists_of_bind_eq_error {ε α β : Type} {x : Except ε α} {f : α → Except ε β} {err : ε}
    (h : x >>= f = .error err) : x = .error err ∨ ∃ a, f a = .error err := by
  cases x with
  | error e => exact .inl (by cases h; rfl)
  | ok a => exact .inr ⟨a, h⟩

/-- One computation after another succeeds by the success of the first and then of the second. -/
theorem exists_of_bind_eq_ok {ε α β : Type} {x : Except ε α} {f : α → Except ε β} {b : β}
    (h : x >>= f = .ok b) : ∃ a, x = .ok a ∧ f a = .ok b := by
  cases x with
  | error e => cases h
  | ok a => exact ⟨a, rfl, h⟩

/-- Whatever flattening fails with is a refusal. -/
theorem isRefusal_of_flatten {fields : Fields} {err : SettingsError}
    (h : flatten fields = .error err) : err.IsRefusal := by
  unfold flatten at h
  split at h
  · cases h
  · split at h <;> cases h
    trivial
  · cases h
    trivial

/-- Whatever a document fails with is a refusal. -/
theorem isRefusal_of_documentFields {place : String} {v : Value} {err : SettingsError}
    (h : documentFields place v = .error err) : err.IsRefusal := by
  unfold documentFields at h
  split at h
  · cases h
  · split at h <;> cases h
    trivial

/-- What goes wrong before the merged record is checked is refused. -/
theorem isRefusal_of_merged {place : String} {document : Option Value} {overrides : Fields}
    {err : SettingsError} (h : merged place document overrides = .error err) : err.IsRefusal := by
  obtain hdocument | ⟨fields, h⟩ := exists_of_bind_eq_error h
  · cases document with
    | none => cases hdocument
    | some v =>
      obtain hfields | ⟨fields, h⟩ := exists_of_bind_eq_error hdocument
      · exact isRefusal_of_documentFields hfields
      · obtain hflat | ⟨flat, h⟩ := exists_of_bind_eq_error h
        · exact isRefusal_of_flatten hflat
        · cases h
  · obtain hflat | ⟨flat, h⟩ := exists_of_bind_eq_error h
    · exact isRefusal_of_flatten hflat
    · cases h

/-- The promise about checking a merged record is kept exactly if nothing evades the checks. -/
theorem ofFields_kept_iff (document : Option Value) (fields : Fields) :
    Kept document (ofFields fields) ↔ ¬ Evades document fields := by
  have h := settles_ofFields fields
  cases hrun : ofFields fields with
  | ok s =>
    rw [hrun] at h
    obtain ⟨⟨x, y, hpass⟩, hfits, hreads⟩ := h
    rw [Kept, isSound_toFields_iff, hreads.relative.unique hpass.relative,
      hreads.absolute.unique hpass.absolute]
    constructor
    · rintro ⟨⟨hrelative, habsolute⟩, hmapping⟩ (hlarge | ⟨hxy, hnan⟩ | ⟨-, hother⟩)
      · exact hfits hlarge
      · rw [hxy.relative.unique hpass.relative, hxy.absolute.unique hpass.absolute] at hnan
        exact hnan.elim hrelative habsolute
      · exact hother hmapping
    · intro hkept
      refine ⟨⟨fun h => ?_, fun h => ?_⟩, ?_⟩
      · exact hkept (.undefined hpass (.inl h))
      · exact hkept (.undefined hpass (.inr h))
      · by_contra hother
        exact hkept (.noMapping hpass hother)
  | error err =>
    rw [hrun] at h
    obtain ⟨hnot, hiff⟩ := h
    rw [Kept, hiff, not_iff_not]
    constructor
    · exact .tooLarge
    · rintro (hlarge | ⟨hpass, -⟩ | ⟨hpass, -⟩)
      · exact hlarge
      · exact absurd ⟨_, _, hpass⟩ hnot
      · exact absurd ⟨_, _, hpass⟩ hnot

/-- Loading gives sound settings or refuses what it was given, and refuses each document that is
neither empty nor a mapping, exactly if the document and the merged record do not evade the
checks. -/
theorem load_kept_iff (place : String) (document : Option Value) (overrides : Fields) :
    Kept document (load place document overrides) ↔
      ∀ fields, merged place document overrides = .ok fields → ¬ Evades document fields := by
  cases hmerged : merged place document overrides with
  | error err =>
    have hload : load place document overrides = .error err := by
      rw [load_eq, hmerged]
      rfl
    rw [hload]
    refine iff_of_true (isRefusal_of_merged hmerged) ?_
    intro fields h
    cases h
  | ok fields =>
    rw [load_of_merged hmerged, ofFields_kept_iff]
    simp

/-- A document that is the truth value false counts as an empty one. -/
theorem false_document_not_kept :
    ¬ ∀ (place : String) (document : Option Value) (overrides : Fields),
      Kept document (load place document overrides) := by
  have hother : ¬ IsMapping (some (.bool false)) := by
    intro hmapping
    obtain hnull | ⟨fields, hfields⟩ := hmapping _ rfl
    · cases hnull
    · cases hfields
  have hmerged : merged "f" (some (.bool false)) [] = .ok standard.toFields := by rfl
  have hnot : ¬ Kept (some (.bool false)) (load "f" (some (.bool false)) []) := by
    rw [load_of_merged hmerged, ofFields_kept_iff, not_not]
    exact .noMapping standard.passes_toFields hother
  simp only [not_forall]
  exact ⟨"f", some (.bool false), [], hnot⟩

end Settings

end PayrollFormula
