import PayrollFormula.Formula.Parsing
import PayrollFormula.Text.Quoted
import PayrollFormula.Value

/-!
# Reading formulas

A formula is read within limits on its length and depth. `Formula.parse` gives the tree of a text
or the reason why there is none, with the offset at which the text goes wrong. Text that is no
formula because of a token or of its end is reported as unbalanced whenever its parentheses do not
match.
-/

set_option autoImplicit false

namespace PayrollFormula

/-- The greatest depth that a limit may allow. -/
def maxDepthLimit : Nat := 150

/-- Limits on the formulas that are read. -/
structure Limits where
  maxLength : Nat
  maxDepth : Nat
  maxLength_pos : 1 ≤ maxLength
  maxDepth_pos : 1 ≤ maxDepth
  maxDepth_le : maxDepth ≤ maxDepthLimit
deriving DecidableEq, Repr

/-- Why limits are refused. -/
inductive LimitsError where
  | length
  | depth
deriving DecidableEq, Repr

/-- The wording of refused limits. -/
def LimitsError.message : LimitsError → String
  | .length => "max_length must be positive"
  | .depth => s!"max_depth must be between 1 and {maxDepthLimit}"

namespace Limits

/-- The limits that hold unless others are asked for. -/
def standard : Limits := ⟨4096, 64, by decide, by decide, by decide⟩

/-- Limits from numbers of any size. -/
def ofInts (maxLength maxDepth : Int) : Except LimitsError Limits :=
  if hl : maxLength < 1 then .error .length
  else if hd : 1 ≤ maxDepth ∧ maxDepth ≤ maxDepthLimit then
    .ok ⟨maxLength.toNat, maxDepth.toNat, by omega, by omega, by omega⟩
  else .error .depth

end Limits

/-- Why a text is not read as a formula. -/
inductive ParseError where
  | notText (typeName : String)
  | blank
  | tooLong (limit : Nat)
  | unexpectedCharacter (c : Char) (position : Nat)
  | unbalanced (position : Nat)
  | unexpectedEnd (length : Nat)
  | unexpectedToken (t : Token)
  | outOfRange (t : Token)
  | tooDeep (depth limit : Nat)
deriving DecidableEq, Repr

namespace ParseError

/-- The offset at which the text goes wrong, if the error has one. -/
def position : ParseError → Option Nat
  | .notText _ | .tooDeep _ _ => none
  | .blank => some 0
  | .tooLong limit => some limit
  | .unexpectedCharacter _ p | .unbalanced p | .unexpectedEnd p => some p
  | .unexpectedToken t | .outOfRange t => some t.start

/-- How a token is named in a message. -/
def tokenLabel (t : Token) : String :=
  match t.kind with
  | .rightParen => "')'"
  | .leftParen => "'('"
  | .comma => "','"
  | .colon => "':'"
  | .question => "'?'"
  | _ => quoted t.text

/-- The wording of the error, without its offset. -/
def message : ParseError → String
  | .notText typeName => s!"Formula must be a string, got {typeName}"
  | .blank => "Formula must be a non-empty string"
  | .tooLong limit => s!"Formula exceeds maximum length of {limit} characters"
  | .unexpectedCharacter c _ => "Unexpected character " ++ quoted (String.ofList [c])
  | .unbalanced _ => "Unbalanced parentheses"
  | .unexpectedEnd _ => "Unexpected end of formula"
  | .unexpectedToken t => "Unexpected token " ++ tokenLabel t
  | .outOfRange t => "Numeric literal out of range: " ++ quoted t.text
  | .tooDeep depth limit => s!"Formula nesting depth {depth} exceeds maximum of {limit}"

/-- The full text of the error. -/
def text (e : ParseError) : String :=
  let suffix :=
    match e.position with
    | some p => s!" (at position {p})"
    | none => ""
  "Formula parse error: " ++ e.message ++ suffix

end ParseError

namespace Formula

/-- Whether parentheses match, given how many are open before the text. -/
def balancedFrom (opened : Nat) : List Char → Bool
  | [] => opened = 0
  | '(' :: cs => balancedFrom (opened + 1) cs
  | ')' :: cs =>
    match opened with
    | 0 => false
    | opened + 1 => balancedFrom opened cs
  | _ :: cs => balancedFrom opened cs

/-- Whether the parentheses of a text match. -/
def balanced (cs : List Char) : Bool := balancedFrom 0 cs

/-- Where unmatched parentheses are reported if the text ends too early: at its last token. -/
def lastStart (ts : List Token) : Nat := (ts.getLast?.map Token.start).getD 0

/-- The error for an offence in a text. -/
def errorOf (cs : List Char) (ts : List Token) : Parsing.Offence → ParseError
  | .character c p => .unexpectedCharacter c p
  | .token t => if balanced cs then .unexpectedToken t else .unbalanced t.start
  | .ending => if balanced cs then .unexpectedEnd cs.length else .unbalanced (lastStart ts)

/-- The tokens of a text. -/
def tokens (cs : List Char) : Except ParseError (List Token) :=
  if (strip cs).isEmpty then .error .blank
  else
    match scan cs with
    | ⟨ts, none⟩ => .ok ts
    | ⟨_, some (c, p)⟩ => .error (.unexpectedCharacter c p)

/-- The tree of a text, whatever its depth. -/
def tree (cs : List Char) : Except ParseError Expr :=
  let scanned := scan cs
  match Parsing.treeOf scanned with
  | .error offence => .error (errorOf cs scanned.tokens offence)
  | .ok e =>
    match scanned.tokens.find? (·.isOutOfRange) with
    | some t => .error (.outOfRange t)
    | none => .ok e

/-- Reads a text as a formula within limits. -/
def parse (limits : Limits) (text : String) : Except ParseError Expr :=
  let cs := text.toList
  if (strip cs).isEmpty then .error .blank
  else if limits.maxLength < cs.length then .error (.tooLong limits.maxLength)
  else
    match tree cs with
    | .error e => .error e
    | .ok e =>
      if limits.maxDepth < e.depth then .error (.tooDeep e.depth limits.maxDepth) else .ok e

/-- Reads a value of any type as a formula; only a text can be one. -/
def parseValue (limits : Limits) : Value → Except ParseError Expr
  | .text s => parse limits s
  | v => .error (.notText v.typeName)

/-- The tokens of a value of any type; only a text has some. -/
def tokensOfValue : Value → Except ParseError (List Token)
  | .text s => tokens s.toList
  | v => .error (.notText v.typeName)

end Formula

end PayrollFormula
