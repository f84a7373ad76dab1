import PayrollFormula.Text.CharClass

/-!
# Lists of names

Names in the order of their code points, names without repetitions, and names on one line.
-/

set_option autoImplicit false

namespace PayrollFormula

/-- Whether a text is a name: an ASCII letter or underscore, then such characters or digits. -/
def isName : List Char → Bool
  | [] => false
  | c :: cs => isNameStart c && cs.all isNameChar

/-- Texts in the order of their code points. -/
def sortTexts (ss : List String) : List String := ss.mergeSort fun a b => decide (a ≤ b)

/-- The elements in order of their first occurrence, each once. -/
def firstOccurrences {α : Type} [DecidableEq α] : List α → List α
  | [] => []
  | x :: xs => x :: (firstOccurrences xs).filter (· ≠ x)

/-- Adds an element at the end of a list, unless it is in the list. -/
def appendNew {α : Type} [DecidableEq α] (xs : List α) (x : α) : List α :=
  if x ∈ xs then xs else xs ++ [x]

/-- Names on one line. -/
def listed (names : List String) : String := String.intercalate ", " names

/-- Names on one line, or a remark that there are none. -/
def listedOrNone (names : List String) : String :=
  if names.isEmpty then "(none)" else listed names

end PayrollFormula
