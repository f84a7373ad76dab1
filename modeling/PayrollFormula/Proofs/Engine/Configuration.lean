import PayrollFormula.Engine
import PayrollFormula.Proofs.Settings

/-!
# Where settings come from

Each setting is the first entry that there is for its key: in the overrides, in the document, and
among the defaults, where a source that has the key in its block of tolerances gives that entry
before its flat one (`Settings.get?_merged`). Records are values here, so no source is changed by
being read. Settings are loaded from their own record as they are (`Settings.load_toFields`), and an
engine whose settings are loaded twice has those that were loaded first.
-/

set_option autoImplicit false

namespace PayrollFormula

namespace Settings

/-! ## Entries of a source -/

/-- The short name of a key in the block of tolerances. -/
def shortName? (key : String) : Option String := (blockKeys.find? (·.2 = key)).map Prod.fst

/-- The entry for a key in the block of tolerances of a source. -/
def inBlock? (fields : Fields) (key : String) : Option Value :=
  match fields.get? blockKey with
  | some (.record block) => (shortName? key).bind fun short => Fields.get? block short
  | _ => none

/-- The entry of a source for a key: the one in the block of tolerances before the flat one. -/
def lookup? (fields : Fields) (key : String) : Option Value :=
  (inBlock? fields key).or (fields.get? key)

variable {fields flat : Fields} {key : String}

/-- The entries of a block under the keys that a table has for their short names. -/
def entriesUnder (table : List (String × String)) (block : Fields) : Fields :=
  table.filterMap fun (short, key) => (block.get? short).map (key, ·)

/-- The entries of a block start with that under the first key of the table, if the block has one.
-/
theorem entriesUnder_cons (short key : String) (table : List (String × String)) (block : Fields) :
    entriesUnder ((short, key) :: table) block =
      match block.get? short with
      | some v => (key, v) :: entriesUnder table block
      | none => entriesUnder table block := by
  unfold entriesUnder
  rw [List.filterMap_cons]
  cases hv : block.get? short <;> simp [hv]

/-- The entries of a block have keys of the table, in its order. -/
theorem names_entriesUnder (table : List (String × String)) (block : Fields) :
    (entriesUnder table block).names.Sublist (table.map Prod.snd) := by
  induction table with
  | nil => exact List.Sublist.refl []
  | cons p table ih =>
    rw [entriesUnder_cons]
    cases block.get? p.1 with
    | none => exact ih.cons p.2
    | some v => exact ih.cons_cons p.2

/-- An entry of a block is found under the key that the table gives its short name. -/
theorem get?_entriesUnder {table : List (String × String)} (hkeys : (table.map Prod.snd).Nodup)
    (block : Fields) (key : String) : (entriesUnder table block).get? key =
      ((table.find? (·.2 = key)).map Prod.fst).bind fun short => block.get? short := by
  induction table with
  | nil => rfl
  | cons p table ih =>
    obtain ⟨hp, htable⟩ := List.nodup_cons.mp hkeys
    rw [entriesUnder_cons, List.find?_cons]
    by_cases hkey : p.2 = key
    · have hrest : (entriesUnder table block).get? key = none := by
        rw [Fields.get?_eq_none_iff, ← hkey]
        exact fun hmem => hp ((names_entriesUnder table block).subset hmem)
      cases hv : block.get? p.1 <;> simp [hkey, hv, hrest, Fields.get?_cons]
    · rw [decide_eq_false hkey, ← ih htable]
      cases block.get? p.1 with
      | none => rfl
      | some v => rw [Fields.get?_cons, if_neg (Ne.symm hkey)]

/-- No two short names stand for the same key. -/
theorem nodup_blockKeys : (blockKeys.map Prod.snd).Nodup := by decide

/-- A source is flattened by leaving out its block and setting the entries that are in it. -/
theorem flatten_cases (h : flatten fields = .ok flat) :
    (∀ key, inBlock? fields key = none) ∧ flat = fields.erase blockKey ∨
      ∃ block, fields.get? blockKey = some (.record block) ∧
        flat = (fields.erase blockKey).update (blockEntries block) := by
  unfold flatten at h
  unfold inBlock?
  cases hblock : fields.get? blockKey with
  | none =>
    rw [hblock] at h
    cases h
    exact .inl ⟨fun _ => rfl, rfl⟩
  | some v =>
    rw [hblock] at h
    cases v with
    | null =>
      cases h
      exact .inl ⟨fun _ => rfl, rfl⟩
    | record block =>
      simp only [Option.getD_some] at h
      split at h
      · cases h
        exact .inr ⟨block, rfl, rfl⟩
      · cases h
    | _ => cases h

/-- A flattened source has the entry of the source under each key but that of the block. -/
theorem get?_flatten (h : flatten fields = .ok flat) (hkey : key ≠ blockKey) :
    flat.get? key = lookup? fields key := by
  have herase : (fields.erase blockKey).get? key = fields.get? key := by
    rw [Fields.get?_erase, if_neg hkey]
  unfold lookup?
  obtain ⟨hnone, rfl⟩ | ⟨block, hblock, rfl⟩ := flatten_cases h
  · rw [herase, hnone, Option.none_or]
  · have hentries : (blockEntries block).get? key =
        (shortName? key).bind fun short => Fields.get? block short :=
      get?_entriesUnder nodup_blockKeys block key
    have hnames : (blockEntries block).names.Nodup :=
      nodup_blockKeys.sublist (names_entriesUnder blockKeys block)
    rw [Fields.get?_update hnames, herase, hentries, inBlock?, hblock]

/-- Taking a block apart leaves every key at most once. -/
theorem nodup_names_flatten (h : flatten fields = .ok flat) (hnames : fields.names.Nodup) :
    flat.names.Nodup := by
  have herase : (fields.erase blockKey).names.Nodup := Fields.nodup_names_erase hnames
  obtain ⟨-, rfl⟩ | ⟨block, -, rfl⟩ := flatten_cases h
  · exact herase
  · exact Fields.nodup_names_update herase

/-! ## The first entry -/

/-- The record of a document. One that is no mapping counts as empty if it is read at all. -/
def recordOf : Option Value → Fields
  | some (.record fields) => fields
  | _ => []

/-- The first entry for a key: of the overrides, of the document or of the defaults. -/
def firstEntry (document : Option Value) (overrides : Fields) (key : String) : Option Value :=
  (lookup? overrides key).or ((lookup? (recordOf document) key).or (standard.toFields.get? key))

variable {place : String} {document : Option Value} {overrides : Fields}

/-- A record changed by a flattened source has the entry of the source under a key, or what was
there. -/
theorem get?_update_flatten (h : flatten fields = .ok flat) (hnames : fields.names.Nodup)
    (old : Fields) (hkey : key ≠ blockKey) :
    (old.update flat).get? key = (lookup? fields key).or (old.get? key) := by
  rw [Fields.get?_update (nodup_names_flatten h hnames), get?_flatten h hkey]

/-- The fields that are read of a document are those of the record that it is. -/
theorem recordOf_of_documentFields {v : Value} (h : documentFields place v = .ok fields) :
    recordOf (some v) = fields := by
  cases v with
  | record fs =>
    cases h
    rfl
  | _ =>
    simp only [documentFields] at h
    split_ifs at h
    cases h
    rfl

/-- What is checked has the first entry under each key. -/
theorem get?_merged (hdocument : (recordOf document).names.Nodup)
    (hoverrides : overrides.names.Nodup) (h : merged place document overrides = .ok fields)
    (hkey : key ≠ blockKey) : fields.get? key = firstEntry document overrides key := by
  obtain ⟨old, hold, h⟩ := exists_of_bind_eq_ok h
  obtain ⟨flat, hflat, h⟩ := exists_of_bind_eq_ok h
  cases h
  rw [get?_update_flatten hflat hoverrides old hkey, firstEntry]
  congr 1
  cases document with
  | none =>
    cases hold
    rfl
  | some v =>
    obtain ⟨fs, hfs, hold⟩ := exists_of_bind_eq_ok hold
    obtain ⟨flat', hflat', hold⟩ := exists_of_bind_eq_ok hold
    cases hold
    rw [recordOf_of_documentFields hfs] at hdocument ⊢
    exact get?_update_flatten hflat' hdocument _ hkey

/-! ## Settings from entries -/

/-- What a value under a key becomes in settings: a tolerance becomes a double, and anything else
stays as it is. -/
def Becomes (key : String) (v w : Value) : Prop :=
  if key ∈ blockKeys.map Prod.snd then ∃ x, v.toDouble? = some (.ok x) ∧ w = .double x else w = v

/-- A tolerance that is read is the number of an entry. -/
theorem HasTolerance.exists_entry {x : Double} (h : HasTolerance fields key x) :
    ∃ v, fields.get? key = some v ∧ v.toDouble? = some (.ok x) := by
  obtain ⟨-, hv | ⟨i, hv, -, hx⟩⟩ := h
  · exact ⟨_, hv, rfl⟩
  · exact ⟨_, hv, congrArg some hx⟩

/-- Settings that are read of a record have each of its entries, as what it becomes. -/
theorem Reads.becomes {s : Settings} (h : Reads fields s) (hkey : key ∈ keys) :
    ∃ v w, fields.get? key = some v ∧ s.toFields.get? key = some w ∧ Becomes key v w := by
  have hkeys : keys = [lengthKey, depthKey, relativeKey, absoluteKey, enabledKey, fsyncKey,
      tailKey] := rfl
  have hstays {name : String} {v : Value} (hname : name ∉ blockKeys.map Prod.snd) :
      Becomes name v v := by
    rw [Becomes, if_neg hname]
  have htolerance {name : String} {x : Double} (hname : name ∈ blockKeys.map Prod.snd)
      (hx : HasTolerance fields name x) :
      ∃ v, fields.get? name = some v ∧ Becomes name v (.double x) := by
    obtain ⟨v, hv, hdouble⟩ := hx.exists_entry
    refine ⟨v, hv, ?_⟩
    rw [Becomes, if_pos hname]
    exact ⟨x, hdouble, rfl⟩
  rw [hkeys] at hkey
  simp only [List.mem_cons, List.not_mem_nil, or_false] at hkey
  rcases hkey with rfl | rfl | rfl | rfl | rfl | rfl | rfl
  · exact ⟨_, _, h.length, rfl, hstays (by decide)⟩
  · exact ⟨_, _, h.depth, rfl, hstays (by decide)⟩
  · obtain ⟨v, hv, hbecomes⟩ := htolerance (by decide) h.relative
    exact ⟨v, _, hv, rfl, hbecomes⟩
  · obtain ⟨v, hv, hbecomes⟩ := htolerance (by decide) h.absolute
    exact ⟨v, _, hv, rfl, hbecomes⟩
  · exact ⟨_, _, h.enabled, rfl, hstays (by decide)⟩
  · exact ⟨_, _, h.fsync, rfl, hstays (by decide)⟩
  · exact ⟨_, _, h.tail, rfl, hstays (by decide)⟩

/-- A record is read as no more than one value of settings. -/
theorem Reads.unique {s s' : Settings} (h : Reads fields s) (h' : Reads fields s') : s = s' := by
  have hcount {name : String} {m n : Nat} (hm : fields.get? name = some (.int m))
      (hn : fields.get? name = some (.int n)) : m = n := by
    have hsome := hm.symm.trans hn
    simp only [Option.some.injEq, Value.int.injEq] at hsome
    omega
  have hflag {name : String} {b c : Bool} (hb : fields.get? name = some (.bool b))
      (hc : fields.get? name = some (.bool c)) : b = c := by
    cases hb.symm.trans hc
    rfl
  have hlength := hcount h.length h'.length
  have hdepth := hcount h.depth h'.depth
  have hrelative := h.relative.unique h'.relative
  have habsolute := h.absolute.unique h'.absolute
  have henabled := hflag h.enabled h'.enabled
  have hfsync := hflag h.fsync h'.fsync
  have htail := hcount h.tail h'.tail
  obtain ⟨⟨_, _, _, _, _⟩, ⟨_, _, _, _⟩, _, _, _, _⟩ := s
  obtain ⟨⟨_, _, _, _, _⟩, ⟨_, _, _, _⟩, _, _, _, _⟩ := s'
  cases hlength
  cases hdepth
  cases hrelative
  cases habsolute
  cases henabled
  cases hfsync
  cases htail
  rfl

/-- The record of settings has these settings to read. -/
theorem reads_toFields (s : Settings) : Reads s.toFields s where
  length := rfl
  depth := rfl
  relative := s.passes_toFields.relative
  absolute := s.passes_toFields.absolute
  enabled := rfl
  fsync := rfl
  tail := rfl

/-- What is loaded is what is read of the merged record. -/
theorem exists_reads_of_load {s : Settings} (h : load place document overrides = .ok s) :
    ∃ fields, merged place document overrides = .ok fields ∧ Reads fields s := by
  rw [load_eq] at h
  obtain ⟨fields, hmerged, hread⟩ := exists_of_bind_eq_ok h
  have hsettles := settles_ofFields fields
  rw [hread] at hsettles
  exact ⟨fields, hmerged, hsettles.2.2⟩

/-- The record of settings is read as the very same settings. -/
theorem ofFields_toFields (s : Settings) : ofFields s.toFields = .ok s := by
  have hsettles := settles_ofFields s.toFields
  cases hread : ofFields s.toFields with
  | error err =>
    rw [hread] at hsettles
    exact absurd ⟨_, _, s.passes_toFields⟩ hsettles.1
  | ok s' =>
    rw [hread] at hsettles
    rw [hsettles.2.2.unique s.reads_toFields]

/-- The record of settings is loaded as these settings. -/
theorem load_toFields (place : String) (s : Settings) : load place none s.toFields = .ok s := by
  have hmerged : merged place none s.toFields = .ok s.toFields := rfl
  rw [load_of_merged hmerged, ofFields_toFields]

/-- Settings are merged with a fixed precedence, and are loaded again as they are. Whatever is
loaded has exactly the known keys, and under each key what the first entry for it becomes: of the
overrides, of the document or of the defaults, where the block of tolerances of a source comes
before its flat entries. Loading the result as overrides gives it back, so an engine that is made of
a document has the settings that were read. -/
theorem load_first_entries (place : String) (document : Option Value) (overrides : Fields)
    (hdocument : (recordOf document).names.Nodup) (hoverrides : overrides.names.Nodup) :
    (∀ s, load place document overrides = .ok s →
      s.toFields.names = keys ∧
      (∀ key ∈ keys, ∃ v w, firstEntry document overrides key = some v ∧
        s.toFields.get? key = some w ∧ Becomes key v w) ∧
      ∀ place', load place' none s.toFields = .ok s) ∧
    Engine.ofDocument place document = (load place document []).map fun s =>
      Engine.ofSettings s (some ⟨.empty, s.tailBytes⟩) := by
  constructor
  · intro s h
    obtain ⟨fields, hmerged, hreads⟩ := exists_reads_of_load h
    refine ⟨rfl, fun key hkey => ?_, fun place' => load_toFields place' s⟩
    have hblock : key ≠ blockKey := by
      rintro rfl
      revert hkey
      decide
    rw [← get?_merged hdocument hoverrides hmerged hblock]
    exact hreads.becomes hkey
  · unfold Engine.ofDocument Engine.ofOverrides
    cases load place document [] with
    | error e => rfl
    | ok s =>
      have hagain : load "" none s.toFields = .ok s := load_toFields "" s
      simp only [bind, Except.bind, hagain, Except.map, pure, Except.pure, Engine.ofSettings]
      cases s.loggingEnabled <;> rfl

/-- The depth of the overrides stands before that of the document, and the tolerance in the
document's block before the flat one beside it. -/
theorem load_depth_tolerance :
    let document : Value := .record [(depthKey, .int 10), (relativeKey, .double .zero),
      (blockKey, .record [("rel_tol", .double .one)])]
    let overrides : Fields := [(depthKey, .int 20)]
    (recordOf (some document)).names.Nodup ∧ overrides.names.Nodup ∧
      ∃ s, load "f" (some document) overrides = .ok s ∧
        s.toFields.get? depthKey = some (.int 20) ∧
        s.toFields.get? relativeKey = some (.double .one) ∧ load "g" none s.toFields = .ok s := by
  intro document overrides
  have hdocument : (recordOf (some document)).names.Nodup := by decide
  have hoverrides : overrides.names.Nodup := by decide
  obtain ⟨hloaded, -⟩ := load_first_entries "f" (some document) overrides hdocument hoverrides
  let s : Settings :=
    { standard with
      limits := ⟨4096, 20, by decide, by decide, by decide⟩
      tolerances :=
        { standard.tolerances with
          relative := .one
          relative_nonneg := Double.belowZero_eq_false rfl } }
  have hmerged : merged "f" (some document) overrides = .ok s.toFields := rfl
  have hs : load "f" (some document) overrides = .ok s := by
    rw [load_of_merged hmerged, ofFields_toFields]
  obtain ⟨-, hfirst, hagain⟩ := hloaded s hs
  refine ⟨hdocument, hoverrides, s, hs, ?_, ?_, hagain "g"⟩
  · obtain ⟨v, w, hv, hw, hbecomes⟩ := hfirst depthKey (by decide)
    cases hv
    rw [Becomes, if_neg (by decide)] at hbecomes
    rw [hw, hbecomes]
  · obtain ⟨v, w, hv, hw, hbecomes⟩ := hfirst relativeKey (by decide)
    cases hv
    rw [Becomes, if_pos (by decide)] at hbecomes
    obtain ⟨x, hx, rfl⟩ := hbecomes
    cases hx
    exact hw

end Settings

end PayrollFormula
