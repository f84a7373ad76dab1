import PayrollFormula.Formula.Expr
import PayrollFormula.Formula.Token

/-!
# From tokens to trees

The parser reads one token at a time. It keeps a stack of frames, the contexts that are still open
from the innermost outwards, and a focus, what the last token left behind. An operator first closes
the frames that bind at least as tightly as it does, which makes operators of one level
left-associative. A token that no formula can have at this place is refused at once, so the first
refused token is the first that no formula continues with.
-/

set_option autoImplicit false

namespace PayrollFormula

namespace Parsing

/-- A context that waits for the formula being read. -/
inductive Frame where
  | unary (op : UnaryOp)
  | binary (op : BinaryOp) (left : Expr)
  /-- After the question mark of a choice. -/
  | whenTrue (condition : Expr)
  /-- After the colon of a choice. -/
  | whenFalse (condition whenTrue : Expr)
  | group
  /-- Inside the parentheses of a call, with the arguments so far in reverse. -/
  | args (name : String) (done : List Expr)
deriving Repr

/-- The binding strength of a frame; zero if only a later token can close it. -/
def Frame.level : Frame → Nat
  | .unary op => op.level
  | .binary op _ => op.level
  | .whenFalse _ _ => 1
  | .whenTrue _ | .group | .args _ _ => 0

/-- The formula that a frame makes of the formula it waits for. -/
def Frame.close (e : Expr) : Frame → Expr
  | .unary op => .unary op e
  | .binary op left => .binary op left e
  | .whenFalse c a => .choice c a e
  | .whenTrue _ | .group | .args _ _ => e

/-- What the last token left behind. -/
inductive Focus where
  /-- A formula has to start here. -/
  | operand
  /-- A formula has to start here, or the arguments end at once. -/
  | firstArg
  /-- A name, which is a call if a parenthesis follows and a variable otherwise. -/
  | named (name : String)
  /-- A formula that may go on. -/
  | complete (e : Expr)
deriving Repr

/-- The state of the parser between two tokens. -/
structure State where
  frames : List Frame
  focus : Focus
deriving Repr

/-- The state before the first token. -/
def initial : State := ⟨[], .operand⟩

/-- Closes the frames of at least the given level around a formula. -/
def collapse (level : Nat) : List Frame → Expr → List Frame × Expr
  | [], e => ([], e)
  | f :: fs, e => if level ≤ f.level then collapse level fs (f.close e) else (f :: fs, e)

/-- The operator that a token stands for between two operands. -/
def binaryOp? : TokenKind → Option BinaryOp
  | .plus => some .add
  | .minus => some .sub
  | .star => some .mul
  | .slash => some .div
  | .percent => some .mod
  | .equal => some .eq
  | .unequal => some .ne
  | .less => some .lt
  | .atMost => some .le
  | .greater => some .gt
  | .atLeast => some .ge
  | .and => some .and
  | .or => some .or
  | _ => none

/-- Whether a negation may start here: not as the operand of anything that binds more tightly. -/
def allowsNot : List Frame → Bool
  | [] => true
  | f :: _ => f.level ≤ UnaryOp.not.level

/-- Reads a token where a formula has to start. -/
def readStart (frames : List Frame) (t : Token) : Option State :=
  match t.kind with
  | .number => some ⟨frames, .complete (.literal t.number)⟩
  | .name => some ⟨frames, .named t.text⟩
  | .leftParen => some ⟨.group :: frames, .operand⟩
  | .minus => some ⟨.unary .neg :: frames, .operand⟩
  | .not => if allowsNot frames then some ⟨.unary .not :: frames, .operand⟩ else none
  | _ => none

/-- Reads a token after a formula. -/
def readAfter (frames : List Frame) (e : Expr) (t : Token) : Option State :=
  match binaryOp? t.kind with
  | some op =>
    let (fs, left) := collapse op.level frames e
    some ⟨.binary op left :: fs, .operand⟩
  | none =>
    match t.kind with
    | .question =>
      let (fs, c) := collapse BinaryOp.or.level frames e
      some ⟨.whenTrue c :: fs, .operand⟩
    | .colon =>
      match collapse 1 frames e with
      | (.whenTrue c :: fs, a) => some ⟨.whenFalse c a :: fs, .operand⟩
      | _ => none
    | .comma =>
      match collapse 1 frames e with
      | (.args name done :: fs, a) => some ⟨.args name (a :: done) :: fs, .operand⟩
      | _ => none
    | .rightParen =>
      match collapse 1 frames e with
      | (.group :: fs, a) => some ⟨fs, .complete a⟩
      | (.args name done :: fs, a) =>
        some ⟨fs, .complete (.callNamed name (a :: done).reverse)⟩
      | _ => none
    | _ => none

/-- Reads one token, or refuses it. -/
def feed (s : State) (t : Token) : Option State :=
  match s.focus with
  | .operand => readStart s.frames t
  | .firstArg =>
    match t.kind, s.frames with
    | .rightParen, .args name _ :: fs => some ⟨fs, .complete (.callNamed name [])⟩
    | _, _ => readStart s.frames t
  | .named name =>
    match t.kind with
    | .leftParen => some ⟨.args name [] :: s.frames, .firstArg⟩
    | _ => readAfter s.frames (.variable name) t
  | .complete e => readAfter s.frames e t

/-- The formula that was read, if the text may end here. -/
def finish (s : State) : Option Expr :=
  let closed (e : Expr) : Option Expr :=
    match collapse 1 s.frames e with
    | ([], tree) => some tree
    | _ => none
  match s.focus with
  | .operand | .firstArg => none
  | .named name => closed (.variable name)
  | .complete e => closed e

/-- Reads tokens until one is refused; the error is that token. -/
def run (s : State) : List Token → Except Token State
  | [] => .ok s
  | t :: ts =>
    match feed s t with
    | some s' => run s' ts
    | none => .error t

/-- Why a scanned text is no formula. -/
inductive Offence where
  | token (t : Token)
  | character (c : Char) (position : Nat)
  | ending
deriving DecidableEq, Repr

/-- The formula of a scanned text. The tokens before an offending character are read first, so
that of several offences the leftmost is reported. -/
def treeOf (s : Scan) : Except Offence Expr :=
  match run initial s.tokens with
  | .error t => .error (.token t)
  | .ok state =>
    match s.stop with
    | some (c, position) => .error (.character c position)
    | none =>
      match finish state with
      | some e => .ok e
      | none => .error .ending

end Parsing

end PayrollFormula
