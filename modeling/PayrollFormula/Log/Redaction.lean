import PayrollFormula.Text.CharClass
import PayrollFormula.Value

/-!
# Redaction

Amounts, bank and identity numbers and credentials are kept out of logs: the value of a field whose
name hints at one of them is replaced as a whole, in whatever letter case and wherever in the name
the hint stands. Texts that are too long are cut. Records are searched in depth, and so are the
records that are elements of a list, but not the lists that are elements of a list.
-/

set_option autoImplicit false

namespace PayrollFormula

namespace Redaction

/-- The hints that mark a field as sensitive. -/
def hints : List String := [
  "password", "secret", "token", "api_key", "authorization", "cookie", "session", "bindings",
  "salary", "wage", "gross", "net_pay", "iban", "bank", "ssn", "bsn", "tax_id"]

/-- A character without its letter case. The dotted capital i, the dotless i, the long s and the
sign of the kelvin count as the ASCII letters that they are variants of. -/
def folded (c : Char) : Char :=
  if c.toNat = 0x130 ∨ c.toNat = 0x131 then 'i'
  else if c.toNat = 0x17f then 's'
  else if c.toNat = 0x212a then 'k'
  else lowerLetter c

/-- Whether the name of a field hints at something sensitive. -/
def isSensitive (name : String) : Bool :=
  hints.any fun hint => occursIn hint.toList (name.toList.map folded)

/-- What stands in the place of a sensitive value. -/
def mark : String := "[REDACTED]"

/-- The length beyond which texts are cut. -/
def maxLength : Nat := 256

/-- What follows a text that was cut. -/
def cutMark : String := "...[truncated]"

/-- Cuts a text that is too long. -/
def cutText (s : String) : String :=
  if maxLength < s.length then String.ofList (s.toList.take maxLength) ++ cutMark else s

mutual

/-- Redacts the fields of a record. -/
def fields : List (String × Value) → List (String × Value)
  | [] => []
  | (name, v) :: rest =>
    (name, if isSensitive name then .text mark else field v) :: fields rest

/-- Redacts the value of a field that is not sensitive. -/
def field : Value → Value
  | .record fs => .record (fields fs)
  | .list vs => .list (elements vs)
  | .text s => .text (cutText s)
  | v => v

/-- Redacts the elements of a list. -/
def elements : List Value → List Value
  | [] => []
  | v :: vs => element v :: elements vs

/-- Redacts an element of a list. -/
def element : Value → Value
  | .record fs => .record (fields fs)
  | .text s => .text (cutText s)
  | v => v

end

end Redaction

end PayrollFormula
