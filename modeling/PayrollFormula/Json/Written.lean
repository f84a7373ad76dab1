import PayrollFormula.Number.Integer
import PayrollFormula.Text.Names
import PayrollFormula.Text.Quoted
import PayrollFormula.Value

/-!
# Written JSON

A value as JSON on one line of printable ASCII characters. The fields of a record stand in the
order of their names, elements are separated by a comma and a space, names and values by a colon
and a space. Every other character is escaped in units of UTF-16. A number that is not finite is
written as null, and a decimal or rational number as a text; `Json.image` is the value that this
leaves. A value with too many levels or with an integer of too many digits is not written at all:
`Json.levels` and `Json.hasLongInteger` are what a writer has to look at first.
-/

set_option autoImplicit false

namespace PayrollFormula

namespace Json

/-- A unit of UTF-16, escaped. -/
def escapedUnit (n : Nat) : List Char := '\\' :: 'u' :: hexPadded 4 n

/-- A character inside a JSON text. -/
def escaped (c : Char) : List Char :=
  if c = '"' then ['\\', '"']
  else if c = '\\' then ['\\', '\\']
  else if c = '\n' then ['\\', 'n']
  else if c = '\r' then ['\\', 'r']
  else if c = '\t' then ['\\', 't']
  else if c.toNat = 12 then ['\\', 'f']
  else if c.toNat = 8 then ['\\', 'b']
  else if 32 ≤ c.toNat ∧ c.toNat < 127 then [c]
  else if c.toNat < 0x10000 then escapedUnit c.toNat
  else
    escapedUnit (0xd800 + (c.toNat - 0x10000) / 0x400)
      ++ escapedUnit (0xdc00 + (c.toNat - 0x10000) % 0x400)

/-- A JSON text with its quotes. -/
def writeText (s : String) : List Char := '"' :: (s.toList.flatMap escaped ++ ['"'])

/-- A JSON number, or null. -/
def writeDouble : Double → List Char
  | .finite x => x.text.toList
  | _ => ['n', 'u', 'l', 'l']

/-- The text of a rational number; a whole one has no denominator. -/
def fractionText (q : Rat) : String :=
  if q.den = 1 then toString q.num else toString q.num ++ "/" ++ toString q.den

/-- Written parts, separated by commas. -/
def joined (parts : List (List Char)) : List Char := List.intercalate [',', ' '] parts

/-- Written fields in the order of their names. -/
def inOrder (fields : List (String × List Char)) : List (String × List Char) :=
  fields.mergeSort fun a b => decide (a.1 ≤ b.1)

/-- A written field. -/
def writeField (field : String × List Char) : List Char :=
  writeText field.1 ++ ':' :: ' ' :: field.2

mutual

/-- A value as JSON. -/
def write : Value → List Char
  | .null => ['n', 'u', 'l', 'l']
  | .bool b => if b then ['t', 'r', 'u', 'e'] else ['f', 'a', 'l', 's', 'e']
  | .int i => (toString i).toList
  | .double x => writeDouble x
  | .decimal d => writeText d.text
  | .fraction q => writeText (fractionText q)
  | .text s => writeText s
  | .list items => '[' :: (joined (writeItems items) ++ [']'])
  | .record fields =>
    '\x7b' :: (joined ((inOrder (writeFields fields)).map writeField) ++ ['\x7d'])

/-- The elements of a list as JSON. -/
def writeItems : List Value → List (List Char)
  | [] => []
  | v :: vs => write v :: writeItems vs

/-- The values of fields as JSON, under their names. -/
def writeFields : List (String × Value) → List (String × List Char)
  | [] => []
  | (name, v) :: rest => (name, write v) :: writeFields rest

end

mutual

/-- A value as it reads after it was written: what JSON has no form for is null or a text. -/
def image : Value → Value
  | .double (.finite x) => .double (.finite x)
  | .double _ => .null
  | .decimal d => .text d.text
  | .fraction q => .text (fractionText q)
  | .list items => .list (imageItems items)
  | .record fields => .record (imageFields fields)
  | v => v

/-- The elements of a list as they read after they were written. -/
def imageItems : List Value → List Value
  | [] => []
  | v :: vs => image v :: imageItems vs

/-- The values of fields as they read after they were written. -/
def imageFields : List (String × Value) → List (String × Value)
  | [] => []
  | (name, v) :: rest => (name, image v) :: imageFields rest

end

mutual

/-- The number of levels of a value; one without parts has one level. -/
def levels : Value → Nat
  | .list items => itemLevels items + 1
  | .record fields => fieldLevels fields + 1
  | _ => 1

/-- The greatest number of levels of an element. -/
def itemLevels : List Value → Nat
  | [] => 0
  | v :: vs => max (levels v) (itemLevels vs)

/-- The greatest number of levels of a field. -/
def fieldLevels : List (String × Value) → Nat
  | [] => 0
  | (_, v) :: rest => max (levels v) (fieldLevels rest)

end

/-- The greatest number of levels that is written. -/
def maxLevels : Nat := 255

/-- Whether an integer has too many digits to be written. -/
def isLongInteger (i : Int) : Bool := Nat.pow 10 Integer.maxDigits ≤ i.natAbs

mutual

/-- Whether there is an integer with too many digits in a value. -/
def hasLongInteger : Value → Bool
  | .int i => isLongInteger i
  | .list items => itemsHaveLongInteger items
  | .record fields => fieldsHaveLongInteger fields
  | _ => false

/-- Whether there is an integer with too many digits in an element. -/
def itemsHaveLongInteger : List Value → Bool
  | [] => false
  | v :: vs => hasLongInteger v || itemsHaveLongInteger vs

/-- Whether there is an integer with too many digits in a field. -/
def fieldsHaveLongInteger : List (String × Value) → Bool
  | [] => false
  | (_, v) :: rest => hasLongInteger v || fieldsHaveLongInteger rest

end

end Json

end PayrollFormula
