import PayrollFormula.Eval.Comparison
import PayrollFormula.Formula.Parse

/-!
# Settings

Settings are merged from the defaults, a document and overrides, later ones winning, and are then
checked key by key. The tolerances may also stand under short names in a block of their own, which
wins over the flat keys beside it. Settings that pass the checks are a value of `Settings`.
-/

set_option autoImplicit false

namespace PayrollFormula

/-- Checked settings. -/
structure Settings where
  limits : Limits
  tolerances : Tolerances
  loggingEnabled : Bool
  loggingFsync : Bool
  /-- How many bytes at the end of a log are read. -/
  tailBytes : Nat
  tailBytes_pos : 1 ≤ tailBytes
deriving Repr

/-- Why settings are refused. -/
inductive SettingsError where
  | notMapping (place : String)
  | blockNotMapping
  | unknownInBlock (keys : List String)
  | unknownKeys (keys : List String)
  | notPositive (key : String) (value : Value)
  | depthTooGreat (value : Int)
  | notTolerance (key : String) (value : Value)
  | number (e : NumberError)
  | notFlag (key : String) (value : Value)
deriving Repr

namespace Settings

/-- The key of the limit on the length of formulas. -/
def lengthKey : String := "max_formula_length"

/-- The key of the limit on the depth of formulas. -/
def depthKey : String := "max_depth"

/-- The key of the relative tolerance. -/
def relativeKey : String := "equality_rel_tol"

/-- The key of the absolute tolerance. -/
def absoluteKey : String := "equality_abs_tol"

/-- The key of the switch for logging. -/
def enabledKey : String := "logging_enabled"

/-- The key of the switch for flushing the log to disk. -/
def fsyncKey : String := "logging_fsync"

/-- The key of the number of bytes read from the end of a log. -/
def tailKey : String := "logging_tail_bytes"

/-- The key of the block of tolerances. -/
def blockKey : String := "equality"

/-- The short names in the block of tolerances, with the keys that they stand for. -/
def blockKeys : List (String × String) := [("rel_tol", relativeKey), ("abs_tol", absoluteKey)]

/-- The settings that hold unless others are asked for. -/
def standard : Settings where
  limits := .standard
  tolerances := .standard
  loggingEnabled := true
  loggingFsync := false
  tailBytes := 2097152
  tailBytes_pos := by decide

/-- Settings as a record. -/
def toFields (s : Settings) : Fields := [
  (lengthKey, .int s.limits.maxLength),
  (depthKey, .int s.limits.maxDepth),
  (relativeKey, .double s.tolerances.relative),
  (absoluteKey, .double s.tolerances.absolute),
  (enabledKey, .bool s.loggingEnabled),
  (fsyncKey, .bool s.loggingFsync),
  (tailKey, .int s.tailBytes)]

/-- The keys of settings. -/
def keys : List String := standard.toFields.names

/-- The entries of a block of tolerances under their flat keys. -/
def blockEntries (block : Fields) : Fields :=
  blockKeys.filterMap fun (short, key) => (block.get? short).map (key, ·)

/-- Puts the entries of a block of tolerances in the place of the flat keys. -/
def flatten (fields : Fields) : Except SettingsError Fields :=
  let flat := fields.erase blockKey
  match (fields.get? blockKey).getD .null with
  | .null => .ok flat
  | .record block =>
    match (Fields.names block).filter fun k => !(blockKeys.map Prod.fst).contains k with
    | [] => .ok (flat.update (blockEntries block))
    | unknown => .error (.unknownInBlock (sortTexts unknown))
  | _ => .error .blockNotMapping

/-- Reads an integer of at least one. -/
def positive (fields : Fields) (key : String) : Except SettingsError Int :=
  match (fields.get? key).getD .null with
  | .int i => if 1 ≤ i then .ok i else .error (.notPositive key (.int i))
  | v => .error (.notPositive key v)

/-- Reads a number that is not below zero. -/
def tolerance (fields : Fields) (key : String) :
    Except SettingsError { x : Double // x.belowZero = false } :=
  match (fields.get? key).getD .null with
  | .double x =>
    if h : x.belowZero = false then .ok ⟨x, h⟩ else .error (.notTolerance key (.double x))
  | .int i =>
    if i < 0 then .error (.notTolerance key (.int i))
    else
      match Double.ofInt i with
      | .error e => .error (.number e)
      | .ok x =>
        if h : x.belowZero = false then .ok ⟨x, h⟩ else .error (.notTolerance key (.int i))
  | v => .error (.notTolerance key v)

/-- Reads a switch. -/
def flag (fields : Fields) (key : String) : Except SettingsError Bool :=
  match (fields.get? key).getD .null with
  | .bool b => .ok b
  | v => .error (.notFlag key v)

/-- The limits from numbers of at least one. -/
def limitsOf (maxLength maxDepth : Int) : Except SettingsError Limits :=
  if h : 1 ≤ maxLength ∧ 1 ≤ maxDepth ∧ maxDepth ≤ maxDepthLimit then
    .ok ⟨maxLength.toNat, maxDepth.toNat, by omega, by omega, by omega⟩
  else .error (.depthTooGreat maxDepth)

/-- Checks a record that has all keys. -/
def ofFields (fields : Fields) : Except SettingsError Settings := do
  match fields.names.filter fun k => !keys.contains k with
  | [] => pure ()
  | unknown => .error (.unknownKeys (sortTexts unknown))
  let maxLength ← positive fields lengthKey
  let maxDepth ← positive fields depthKey
  let tail ← positive fields tailKey
  let limits ← limitsOf maxLength maxDepth
  let relative ← tolerance fields relativeKey
  let absolute ← tolerance fields absoluteKey
  let loggingEnabled ← flag fields enabledKey
  let loggingFsync ← flag fields fsyncKey
  if h : 1 ≤ tail then
    return ⟨limits, ⟨relative, absolute, relative.2, absolute.2⟩, loggingEnabled, loggingFsync,
      tail.toNat, by omega⟩
  else .error (.notPositive tailKey (.int tail))

/-- The record of a document. An empty document stands for an empty record. -/
def documentFields (place : String) (document : Value) : Except SettingsError Fields :=
  match document with
  | .record fields => .ok fields
  | v => if v.isVoid then .ok [] else .error (.notMapping place)

/-- The defaults, changed by a document. -/
def withDocument (place : String) (document : Option Value) : Except SettingsError Fields := do
  match document with
  | none => return standard.toFields
  | some v => return standard.toFields.update (← flatten (← documentFields place v))

/-- Merges and checks settings from a document, if there is one at the given place, and from
overrides. -/
def load (place : String) (document : Option Value) (overrides : Fields) :
    Except SettingsError Settings := do
  let fields ← withDocument place document
  ofFields (fields.update (← flatten overrides))

end Settings

namespace SettingsError

/-- The wording of the error. -/
def message : SettingsError → String
  | .notMapping place => place ++ ": config must be a YAML mapping"
  | .blockNotMapping => quoted Settings.blockKey ++ " must be a mapping"
  | .unknownInBlock keys =>
    "Unknown key(s) in " ++ quoted Settings.blockKey ++ ": " ++ listed keys
  | .unknownKeys keys =>
    "Unknown config key(s): " ++ listed keys ++ ". Known: " ++ listed (sortTexts Settings.keys)
  | .notPositive key value =>
    quoted key ++ " must be a positive integer, got " ++ value.display
  | .depthTooGreat value =>
    quoted Settings.depthKey ++ s!" must be at most {maxDepthLimit}, got {value}"
  | .notTolerance key value =>
    quoted key ++ " must be a non-negative number, got " ++ value.display
  | .number e => e.message
  | .notFlag key value => quoted key ++ " must be true or false, got " ++ value.display

end SettingsError

end PayrollFormula
