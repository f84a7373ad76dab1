import PayrollFormula.Template.Schema

/-!
# Catalogues of templates

A catalogue is a document that lists templates. It is loaded as a whole: every template has to be
of the right shape, no two have the same code, and the placeholders of each formula are exactly
its declared parameters. Templates are then listed by code or looked up.
-/

set_option autoImplicit false

namespace PayrollFormula

/-- Why a catalogue is not loaded. -/
inductive CatalogueError where
  | noList (place : String)
  | schema (paths : List Path)
  | duplicate (place code : String)
  | undeclared (place code : String) (names : List String)
  | unused (place code : String) (names : List String)
deriving DecidableEq, Repr

/-- The wording of the error. -/
def CatalogueError.message : CatalogueError → String
  | .noList place => place ++ ": expected a mapping with a 'templates' list"
  | .schema paths => listed (paths.map (String.intercalate "." ·))
  | .duplicate place code => place ++ ": duplicate template code " ++ quoted code
  | .undeclared place code names =>
    place ++ ": template " ++ quoted code ++ " uses undeclared parameter(s): " ++ listed names
  | .unused place code names =>
    place ++ ": template " ++ quoted code ++ " declares unused parameter(s): " ++ listed names

/-- A template with a code is not in the catalogue. -/
structure LookupError where
  code : String
  available : List String
deriving DecidableEq, Repr

/-- The wording of the error. -/
def LookupError.message (e : LookupError) : String :=
  "Template " ++ quoted e.code ++ " not found. Available: " ++ listedOrNone e.available

/-- The names of one list that are not in another, in order. -/
def namesOutside (names others : List String) : List String :=
  sortTexts (firstOccurrences (names.filter (!others.contains ·)))

/-- The templates of a loaded catalogue. -/
abbrev Catalogue : Type := List Template

namespace Catalogue

/-- Reads the next template of a catalogue, given the codes before it. -/
def enter (place : String) (seen : List String) (v : Value) : Except CatalogueError Template :=
  match v.readRecord Template.ofFields with
  | .failed paths => .error (.schema paths)
  | .ok t =>
    let declared := t.parameters.map Parameter.name
    if t.code ∈ seen then .error (.duplicate place t.code)
    else
      match namesOutside t.placeholders declared, namesOutside declared t.placeholders with
      | [], [] => .ok t
      | [], unused => .error (.unused place t.code unused)
      | undeclared, _ => .error (.undeclared place t.code undeclared)

/-- Reads the templates of a catalogue in order, given the codes before them. -/
def enterAll (place : String) (seen : List String) :
    List Value → Except CatalogueError Catalogue
  | [] => .ok []
  | v :: vs => do
    let t ← enter place seen v
    return t :: (← enterAll place (t.code :: seen) vs)

/-- The field of a document that lists the templates. -/
def listField : String := "templates"

/-- Loads the catalogue of a document at a place. -/
def load (place : String) (document : Value) : Except CatalogueError Catalogue :=
  match document with
  | .record fields =>
    match fields.lookup listField with
    | some (.list vs) => enterAll place [] vs
    | _ => .error (.noList place)
  | _ => .error (.noList place)

/-- Templates in the order of their codes. -/
def sorted (c : Catalogue) : List Template := c.mergeSort fun s t => decide (s.code ≤ t.code)

/-- The templates of a category, or all of them, in the order of their codes. -/
def select (c : Catalogue) (category : Option String) : List Template :=
  match category with
  | none => sorted c
  | some category => sorted (c.filter (·.category = category))

/-- The template with a code. -/
def find (c : Catalogue) (code : String) : Except LookupError Template :=
  match List.find? (fun t : Template => t.code = code) c with
  | some t => .ok t
  | none => .error ⟨code, sortTexts (c.map Template.code)⟩

end Catalogue

end PayrollFormula
