import PayrollFormula.Number.Decimal

/-!
# Numbers read from text

`Double.read?` reads a number as people type it: blanks around it are dropped, the digits of every
script count, single underscores may stand between digits, and the words for infinity and for the
undefined number are understood in any letter case. `Double.readField?` is the stricter reading of
a field of a document, and `Decimal.read?` reads a decimal number.
-/

set_option autoImplicit false

namespace PayrollFormula

/-- Whether a text is a given lower-case word, whatever its letter case. -/
def isWord (word : String) (cs : List Char) : Bool := cs.map lowerLetter = word.toList

/-- A leading sign as a flag, and the rest of a text. -/
def takeSign (cs : List Char) : Bool × List Char :=
  match Numeral.splitSign cs with
  | (['-'], rest) => (true, rest)
  | (_, rest) => (false, rest)

/-- The text without its underscores, none of which may stand at an end or next to another. -/
def withoutUnderscores? (cs : List Char) : Option (List Char) :=
  if ['_'].isPrefixOf cs || ['_'].isSuffixOf cs || occursIn ['_', '_'] cs then none
  else some (cs.filter (· ≠ '_'))

namespace Double

/-- Reads a signed numeral or the name of a special number. -/
def readPlain? (cs : List Char) : Option Double :=
  let (negative, rest) := takeSign cs
  if isWord "inf" rest || isWord "infinity" rest then some (.infinite negative)
  else if isWord "nan" rest then some .nan
  else (Numeral.read rest).map (·.toDouble negative)

/-- Drops the underscores of a text if each stands between two digits. -/
def dropUnderscores? (before : Option Char) : List Char → Option (List Char)
  | [] => if before = some '_' then none else some []
  | c :: cs =>
    if c = '_' then
      if before.any isDigit then dropUnderscores? (some c) cs else none
    else if before = some '_' ∧ ¬ isDigit c then none
    else (dropUnderscores? (some c) cs).map (c :: ·)

/-- A decimal digit of any script as an ASCII digit; every other character stays. -/
def plainDigit (c : Char) : Char :=
  match digitOf? c with
  | some d => Char.ofNat ('0'.toNat + d)
  | none => c

/-- Reads a number as people type it. -/
def read? (s : String) : Option Double :=
  (dropUnderscores? none ((strip s.toList).map plainDigit)).bind readPlain?

/-- Reads a number from a field of a document. There may be white space around it, or single
underscores inside it, but not both. -/
def readField? (s : String) : Option Double :=
  (readPlain? (trimmed isWhite s.toList)).or
    ((withoutUnderscores? s.toList).bind readPlain?)

end Double

/-- Reads a decimal number. -/
def Decimal.read? (s : String) : Option Decimal :=
  let (negative, rest) := takeSign (strip s.toList)
  if isWord "inf" rest || isWord "infinity" rest then some (.infinite negative)
  else if isWord "nan" rest then some (.nan negative false)
  else if isWord "snan" rest then some (.nan negative true)
  else (Numeral.read rest).map fun n => .finite negative n.coefficient n.exponent

end PayrollFormula
