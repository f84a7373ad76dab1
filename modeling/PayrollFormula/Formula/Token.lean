import PayrollFormula.Number.Numeral

/-!
# Tokens of a formula

The text of a formula is cut into tokens from the left, blanks between them being skipped.
`lexeme?` finds the token at the front of a text, and `scan` lists the tokens with their offsets up
to the end of the text or to the first character that starts neither a token nor a blank. The words
AND, OR and NOT are operators in any letter case, unless a character that continues the word
follows.
-/

set_option autoImplicit false

namespace PayrollFormula

/-- The kinds of tokens. -/
inductive TokenKind where
  | number
  | name
  | and
  | or
  | not
  | question
  | colon
  | comma
  | leftParen
  | rightParen
  | plus
  | minus
  | star
  | slash
  | percent
  | equal
  | unequal
  | less
  | atMost
  | greater
  | atLeast
deriving DecidableEq, Repr

/-- A token: its kind, its characters and the offset of the first. -/
structure Token where
  kind : TokenKind
  chars : List Char
  start : Nat
deriving DecidableEq, Repr

/-- The text of a token. -/
def Token.text (t : Token) : String := String.ofList t.chars

/-- Whether a character may stand between tokens. -/
def isSpace (c : Char) : Bool :=
  c = ' ' || c = '\t' || c = '\n' || c = '\r' || c = Char.ofNat 12

/-- The kind of a word of name characters, given the text after it. -/
def wordKind (word rest : List Char) : TokenKind :=
  if rest.head?.any isWordChar then .name
  else if word.map lowerLetter = ['a', 'n', 'd'] then .and
  else if word.map lowerLetter = ['o', 'r'] then .or
  else if word.map lowerLetter = ['n', 'o', 't'] then .not
  else .name

/-- The operator or punctuation mark at the front of a text, by kind and length. -/
def symbol? : List Char → Option (TokenKind × Nat)
  | '&' :: '&' :: _ => some (.and, 2)
  | '|' :: '|' :: _ => some (.or, 2)
  | '=' :: '=' :: _ => some (.equal, 2)
  | '!' :: '=' :: _ => some (.unequal, 2)
  | '<' :: '=' :: _ => some (.atMost, 2)
  | '>' :: '=' :: _ => some (.atLeast, 2)
  | '!' :: _ => some (.not, 1)
  | '<' :: _ => some (.less, 1)
  | '>' :: _ => some (.greater, 1)
  | '+' :: _ => some (.plus, 1)
  | '-' :: _ => some (.minus, 1)
  | '*' :: _ => some (.star, 1)
  | '/' :: _ => some (.slash, 1)
  | '%' :: _ => some (.percent, 1)
  | '(' :: _ => some (.leftParen, 1)
  | ')' :: _ => some (.rightParen, 1)
  | ',' :: _ => some (.comma, 1)
  | '?' :: _ => some (.question, 1)
  | ':' :: _ => some (.colon, 1)
  | _ => none

/-- The token at the front of a text, by kind and characters. -/
def lexeme? (cs : List Char) : Option (TokenKind × List Char) :=
  if cs.head?.any isNameStart then
    some (wordKind (cs.takeWhile isNameChar) (cs.dropWhile isNameChar), cs.takeWhile isNameChar)
  else
    match Numeral.split cs with
    | some (parts, _) => some (.number, parts.text)
    | none => (symbol? cs).map fun s => (s.1, cs.take s.2)

/-- The tokens of a text, and the character with its offset at which no token starts, if the text
has one. -/
structure Scan where
  tokens : List Token
  stop : Option (Char × Nat)
deriving DecidableEq, Repr

/-- Scans a text from offset `start` on, after skipping `skip` characters of the token before. -/
def scanFrom (skip start : Nat) : List Char → Scan
  | [] => ⟨[], none⟩
  | c :: cs =>
    match skip with
    | skip + 1 => scanFrom skip (start + 1) cs
    | 0 =>
      if isSpace c then scanFrom 0 (start + 1) cs
      else
        match lexeme? (c :: cs) with
        | none => ⟨[], some (c, start)⟩
        | some (kind, chars) =>
          let later := scanFrom (chars.length - 1) (start + 1) cs
          ⟨⟨kind, chars, start⟩ :: later.tokens, later.stop⟩

/-- Scans a text. -/
def scan (cs : List Char) : Scan := scanFrom 0 0 cs

/-- The number that a numeral token writes, if it is in the range of doubles. -/
def Token.number? (t : Token) : Option Finite :=
  match Numeral.read t.chars with
  | none => none
  | some n =>
    match n.toDouble false with
    | .finite x => some x
    | _ => none

/-- The number that a numeral token writes; beyond the range of doubles, the largest of them. -/
def Token.number (t : Token) : Finite := t.number?.getD .largest

/-- Whether the token is a numeral beyond the range of doubles. -/
def Token.isOutOfRange (t : Token) : Bool := t.kind = .number && t.number?.isNone

end PayrollFormula
