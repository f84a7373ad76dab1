import PayrollFormula.Number.Decimal
import PayrollFormula.Text.Quoted

/-!
# Values of any type

Bindings, settings, template documents and log contexts are handed over as values of any type.
Records keep their fields in the order in which they were given. Messages name a value's type and
show the value on one line.
-/

set_option autoImplicit false

namespace PayrollFormula

/-- A value of any type. -/
inductive Value where
  | null
  | bool (b : Bool)
  | int (i : Int)
  | double (x : Double)
  | decimal (d : Decimal)
  | fraction (q : Rat)
  | text (s : String)
  | list (items : List Value)
  | record (fields : List (String × Value))
deriving Repr

/-- The fields of a record in order; a name occurs once. -/
abbrev Fields : Type := List (String × Value)

namespace Value

instance : Inhabited Value := ⟨.null⟩

/-- The text that a value is. -/
def text? : Value → Option String
  | .text s => some s
  | _ => none

/-- The double nearest to a number, or why there is none; other values are no numbers. -/
def toDouble? : Value → Option (Except NumberError Double)
  | .int i => some (Double.ofInt i)
  | .double x => some (.ok x)
  | .decimal d => some d.toDouble
  | .fraction q => some (Double.ofRat q)
  | _ => none

/-- How messages name the type of a value. -/
def typeName : Value → String
  | .null => "NoneType"
  | .bool _ => "bool"
  | .int _ => "int"
  | .double _ => "float"
  | .decimal _ => "Decimal"
  | .fraction _ => "Fraction"
  | .text _ => "str"
  | .list _ => "list"
  | .record _ => "dict"

mutual

/-- A value on one line, as messages show it. -/
def display : Value → String
  | .null => "None"
  | .bool b => if b then "True" else "False"
  | .int i => toString i
  | .double x => x.text
  | .decimal d => "Decimal('" ++ d.text ++ "')"
  | .fraction q => "Fraction(" ++ toString q.num ++ ", " ++ toString q.den ++ ")"
  | .text s => quoted s
  | .list items => "[" ++ String.intercalate ", " (displayItems items) ++ "]"
  | .record fields =>
    "\x7b" ++ String.intercalate ", " (displayFields fields) ++ "\x7d"

/-- The elements of a list, each on one line. -/
def displayItems : List Value → List String
  | [] => []
  | v :: vs => v.display :: displayItems vs

/-- The fields of a record, each on one line. -/
def displayFields : List (String × Value) → List String
  | [] => []
  | (k, v) :: rest => (quoted k ++ ": " ++ v.display) :: displayFields rest

end

/-- Whether a value is empty or zero, and so counts as absent where a default stands in. -/
def isVoid : Value → Bool
  | .null => true
  | .bool b => !b
  | .int i => i = 0
  | .double x => x.isZero
  | .decimal (.finite _ c _) => c = 0
  | .decimal _ => false
  | .fraction q => q.num = 0
  | .text s => s.isEmpty
  | .list items => items.isEmpty
  | .record fields => fields.isEmpty

end Value

namespace Fields

/-- The value under a name. -/
def get? (fields : Fields) (name : String) : Option Value := fields.lookup name

/-- Whether there is a value under a name. -/
def has (fields : Fields) (name : String) : Bool := (fields.lookup name).isSome

/-- The names in order. -/
def names (fields : Fields) : List String := fields.map Prod.fst

/-- Sets the value under a name: in its place if there is one, at the end otherwise. -/
def set (name : String) (v : Value) : Fields → Fields
  | [] => [(name, v)]
  | (n, w) :: rest => if n = name then (n, v) :: rest else (n, w) :: set name v rest

/-- Sets every field of `changes` in turn. -/
def update (fields changes : Fields) : Fields :=
  changes.foldl (fun fs change => set change.1 change.2 fs) fields

/-- The fields without the one under a name. -/
def erase (fields : Fields) (name : String) : Fields := fields.filter (·.1 ≠ name)

end Fields

end PayrollFormula
