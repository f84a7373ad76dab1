import PayrollFormula.Formula.Printed
import PayrollFormula.Proofs.Formula.Grammar
import PayrollFormula.Proofs.Formula.Scanning
import PayrollFormula.Proofs.Formula.Trees
import PayrollFormula.Proofs.Number.Written

/-!
# The canonical text of a formula is a phrase

`Reads` says of a text that it is a phrase wherever it stands, unless the text after it continues
its last token. The canonical text of a formula with proper names reads as the tree
`Expr.reread` (`reads_chars`), in which every number stands without a sign and every function has
an upper-case name.
-/

set_option autoImplicit false

namespace PayrollFormula

open Grammar

/-! ## The tokens of operators -/

/-- The kind of the token that stands for an operator. -/
def BinaryOp.kind : BinaryOp → TokenKind
  | .add => .plus
  | .sub => .minus
  | .mul => .star
  | .div => .slash
  | .mod => .percent
  | .eq => .equal
  | .ne => .unequal
  | .lt => .less
  | .le => .atMost
  | .gt => .greater
  | .ge => .atLeast
  | .and => .and
  | .or => .or

/-- A token of the kind of an operator joins two operands by the operator. -/
theorem BinaryOp.exists_joins_kind (op : BinaryOp) : ∃ c d, Joins c op.kind op d :=
  exists_joins (by cases op <;> rfl)

/-- The symbol of an operator before a blank is a token of the operator's kind. -/
theorem BinaryOp.lexeme?_symbol (op : BinaryOp) (rest : List Char) :
    lexeme? (op.symbol.toList ++ ' ' :: rest) = some (op.kind, op.symbol.toList) := by
  cases op <;> rfl

/-! ## Texts that are phrases wherever they stand -/

/-- Whether a text is a phrase with a given tree wherever it stands, of every category up to a
level, unless the text after it continues its last token. -/
def Reads (cs : List Char) (level : ℕ) (e : Expr) : Prop :=
  ∀ (start : ℕ) (rest : List Char) (us : List Token), Stops continuesToken rest →
    Cut (start + cs.length) rest us →
      ∃ ts, Cut start (cs ++ rest) (ts ++ us) ∧
        ∀ c : Category, c.strength ≤ level → Derives c ts e

/-- A closing parenthesis is a token of its own. -/
theorem Cut.close {start : ℕ} {rest : List Char} {us : List Token} (h : Cut (start + 1) rest us) :
    Cut start (')' :: rest) (⟨.rightParen, [')'], start⟩ :: us) :=
  .lexeme .rightParen [')'] rfl h

/-- A text in parentheses is a phrase of every category. -/
theorem Reads.group {cs : List Char} {level : ℕ} {e : Expr} (h : Reads cs level e)
    (hlevel : 1 ≤ level) : Reads ('(' :: (cs ++ [')'])) 9 e := by
  intro start rest us _ hcut
  have hend : Cut (start + 1 + cs.length + 1) rest us := by
    simpa [Nat.add_assoc, Nat.add_comm, Nat.add_left_comm] using hcut
  obtain ⟨ts, hts, hderives⟩ := h _ _ _ (by simp; decide) hend.close
  have hopen : Cut start (['('] ++ (cs ++ ')' :: rest)) _ := .lexeme .leftParen ['('] rfl hts
  refine ⟨⟨.leftParen, ['('], start⟩ :: (ts ++ [⟨.rightParen, [')'], start + 1 + cs.length⟩]),
    by simpa using hopen, fun c _ => ?_⟩
  exact Derives.loosen (d := .atom) (.group rfl (hderives .ternary hlevel) rfl) (strength_le c)

/-- A text that is put in parentheses on demand is a phrase of the level demanded. -/
theorem Reads.guarded {cs : List Char} {level : ℕ} {e : Expr} (h : Reads cs level e)
    (hlevel : 1 ≤ level) (demanded : ℕ) (hdemanded : demanded ≤ 9) :
    Reads (Expr.guarded demanded level cs) demanded e := by
  intro start rest us hrest hcut
  unfold Expr.guarded at hcut ⊢
  split_ifs at hcut ⊢ with hlt
  · obtain ⟨ts, hts, hderives⟩ := h.group hlevel start rest us hrest hcut
    exact ⟨ts, hts, fun c hc => hderives c (le_trans hc hdemanded)⟩
  · obtain ⟨ts, hts, hderives⟩ := h start rest us hrest hcut
    exact ⟨ts, hts, fun c hc => hderives c (by omega)⟩

/-- A name is read as a variable. -/
theorem reads_variable {name : String} (hname : IsIdentifier name.toList) :
    Reads name.toList 9 (.variable name) := by
  intro start rest us hrest hcut
  have hstop : Stops isWordChar rest := hrest.mono fun c hc => by simp_all [continuesToken]
  refine ⟨[⟨.name, name.toList, start⟩], .lexeme _ _ (lexeme?_name hname hstop) hcut, fun c _ => ?_⟩
  have hnamed : Derives .atom [⟨.name, name.toList, start⟩] (.variable (String.ofList name.toList)) :=
    .named rfl
  rw [String.ofList_toList] at hnamed
  exact hnamed.loosen (strength_le c)

/-- A written numeral of the rank of a number is that number without a sign. -/
theorem number?_of_rank {p : Numeral.Parts} (hp : p.Proper) {x : Finite}
    (hrank : p.value.rank = x.rank) (start : ℕ) :
    Token.number? ⟨.number, p.text, start⟩ = some x.abs := by
  have hdouble : p.value.toDouble false = .finite x.abs := by
    rw [Numeral.toDouble, hrank, Double.ofRank, dif_pos x.rank_lt]
    rfl
  simp [Token.number?, hp.read_text, hdouble]

/-- A numeral that is read as a finite double has its rank. -/
theorem rank_of_number? {p : Numeral.Parts} (hp : p.Proper) {start : ℕ} {x : Finite}
    (h : Token.number? ⟨.number, p.text, start⟩ = some x) : p.value.rank = x.rank := by
  simp only [Token.number?, hp.read_text, Numeral.toDouble, Double.ofRank] at h
  split_ifs at h
  cases h
  rfl

/-- A written numeral is a literal without a sign. -/
theorem reads_number {p : Numeral.Parts} (hp : p.Proper) {x : Finite}
    (hrank : p.value.rank = x.rank) : Reads p.text 9 (.literal x.abs) := by
  intro start rest us hrest hcut
  have hstop : Stops Numeral.continues rest := hrest.mono fun c hc => by simp_all [continuesToken]
  refine ⟨[⟨.number, p.text, start⟩], .lexeme _ _ (lexeme?_number hp hstop) hcut, fun c _ => ?_⟩
  exact (Derives.number rfl (number?_of_rank hp hrank start)).loosen (strength_le c)

/-- A minus sign before a text that is read is read as its negation. -/
theorem Reads.neg {cs : List Char} {a : Expr} (h : Reads cs UnaryOp.neg.level a) :
    Reads ('-' :: cs) UnaryOp.neg.level (.unary .neg a) := by
  intro start rest us hrest hcut
  obtain ⟨ts, hts, hderives⟩ := h (start + 1) rest us hrest
    (by simpa [Nat.add_assoc, Nat.add_comm, Nat.add_left_comm] using hcut)
  have hminus : Cut start (['-'] ++ (cs ++ rest)) _ := .lexeme .minus ['-'] rfl hts
  refine ⟨⟨.minus, ['-'], start⟩ :: ts, hminus, fun c hc => ?_⟩
  exact Derives.loosen (d := .unary) (.neg rfl (hderives .unary le_rfl)) hc

/-- The word of the logical negation before a text that is read is read as such. -/
theorem Reads.not {cs : List Char} {a : Expr} (h : Reads cs UnaryOp.not.level a) :
    Reads ('N' :: 'O' :: 'T' :: ' ' :: cs) UnaryOp.not.level (.unary .not a) := by
  intro start rest us hrest hcut
  obtain ⟨ts, hts, hderives⟩ := h (start + 4) rest us hrest
    (by simpa [Nat.add_assoc, Nat.add_comm, Nat.add_left_comm] using hcut)
  have hblank : Cut (start + 3) (' ' :: (cs ++ rest)) _ := .space rfl hts
  have hnot : Cut start (['N', 'O', 'T'] ++ (' ' :: (cs ++ rest))) _ :=
    .lexeme .not ['N', 'O', 'T'] rfl hblank
  refine ⟨⟨.not, ['N', 'O', 'T'], start⟩ :: ts, hnot, fun c hc => ?_⟩
  exact Derives.loosen (d := .negation) (.not rfl (hderives .negation le_rfl)) hc

/-- Two texts with the symbol of an operator between them are read as its operation on both. -/
theorem Reads.binary {as bs : List Char} {a b : Expr} (op : BinaryOp)
    (ha : Reads as op.level a) (hb : Reads bs (op.level + 1) b) :
    Reads (as ++ ' ' :: op.symbol.toList ++ ' ' :: bs) op.level (.binary op a b) := by
  intro start rest us hrest hcut
  obtain ⟨c, d, hjoins⟩ := op.exists_joins_kind
  have hend : Cut (start + as.length + 1 + op.symbol.toList.length + 1 + bs.length) rest us := by
    simpa [Nat.add_assoc, Nat.add_comm, Nat.add_left_comm] using hcut
  obtain ⟨vs, hvs, hright⟩ := hb _ rest us hrest hend
  have hsymbol := Cut.lexeme _ _ (op.lexeme?_symbol (bs ++ rest)) (.space rfl hvs)
  have hblank : Cut (start + as.length) (' ' :: _) _ := .space rfl hsymbol
  obtain ⟨ts, hts, hleft⟩ := ha start _ _ (by simp; decide) hblank
  refine ⟨ts ++ ⟨op.kind, op.symbol.toList, start + as.length + 1⟩ :: vs, by simpa using hts,
    fun c' hc' => ?_⟩
  have ha' := hleft c hjoins.strength_left.le
  have hb' := hright d hjoins.strength_right.le
  exact Derives.loosen (.binary hjoins ha' hb') (hc'.trans hjoins.strength_left.ge)

/-- Three texts with a question mark and a colon between them are read as a choice. -/
theorem Reads.choice {cs as bs : List Char} {k l : ℕ} {c a b : Expr} (hc : Reads cs 2 c)
    (ha : Reads as k a) (hk : 1 ≤ k) (hb : Reads bs l b) (hl : 1 ≤ l) :
    Reads (cs ++ [' ', '?', ' '] ++ as ++ [' ', ':', ' '] ++ bs) 1 (.choice c a b) := by
  intro start rest us hrest hcut
  have hend : Cut (start + cs.length + 3 + as.length + 3 + bs.length) rest us := by
    simpa [Nat.add_assoc, Nat.add_comm, Nat.add_left_comm] using hcut
  obtain ⟨ws, hws, hfalse⟩ := hb _ rest us hrest hend
  have hcolon : Cut (start + cs.length + 3 + as.length) (' ' :: ([':'] ++ (' ' :: _))) _ :=
    .space rfl (.lexeme .colon [':'] rfl (.space rfl hws))
  obtain ⟨vs, hvs, htrue⟩ := ha _ _ _ (by simp; decide) hcolon
  have hquestion : Cut (start + cs.length) (' ' :: (['?'] ++ (' ' :: _))) _ :=
    .space rfl (.lexeme .question ['?'] rfl (.space rfl hvs))
  obtain ⟨ts, hts, hcondition⟩ := hc start _ _ (by simp; decide) hquestion
  refine ⟨ts ++ ⟨.question, ['?'], start + cs.length + 1⟩ :: (vs ++
    ⟨.colon, [':'], start + cs.length + 3 + as.length + 1⟩ :: ws), by simpa using hts,
    fun d hd => ?_⟩
  exact Derives.loosen (d := .ternary) (.choice (hcondition .disjunction le_rfl) rfl
    (htrue .ternary hk) rfl (hfalse .ternary hl)) hd

/-- Whether a text is a list of arguments wherever it stands, unless the text after it continues
its last token. -/
def ReadsArguments (cs : List Char) (args : List Expr) : Prop :=
  ∀ (start : ℕ) (rest : List Char) (us : List Token), Stops continuesToken rest →
    Cut (start + cs.length) rest us → ∃ ts, Cut start (cs ++ rest) (ts ++ us) ∧ Arguments ts args

/-- A text that is read is a list of one argument. -/
theorem Reads.lastArgument {cs : List Char} {level : ℕ} {a : Expr} (h : Reads cs level a)
    (hlevel : 1 ≤ level) : ReadsArguments cs [a] := by
  intro start rest us hrest hcut
  obtain ⟨ts, hts, hderives⟩ := h start rest us hrest hcut
  exact ⟨ts, hts, .last (hderives .ternary hlevel)⟩

/-- A text that is read, a comma and a list of arguments are a list of arguments. -/
theorem Reads.moreArguments {cs ds : List Char} {level : ℕ} {a : Expr} {args : List Expr}
    (h : Reads cs level a) (hlevel : 1 ≤ level) (hargs : ReadsArguments ds args) :
    ReadsArguments (cs ++ ',' :: ' ' :: ds) (a :: args) := by
  intro start rest us hrest hcut
  have hend : Cut (start + cs.length + 2 + ds.length) rest us := by
    simpa [Nat.add_assoc, Nat.add_comm, Nat.add_left_comm] using hcut
  obtain ⟨vs, hvs, harguments⟩ := hargs _ rest us hrest hend
  have hcomma : Cut (start + cs.length) ([','] ++ (' ' :: _)) _ :=
    .lexeme .comma [','] rfl (.space rfl hvs)
  obtain ⟨ts, hts, hderives⟩ := h start _ _ (by simp; decide) hcomma
  refine ⟨ts ++ ⟨.comma, [','], start + cs.length⟩ :: vs, by simpa using hts, ?_⟩
  exact .more (hderives .ternary hlevel) rfl harguments

/-- A call is cut into its name, its opening parenthesis and what comes after that. -/
theorem cut_call {name : String} {cs rest : List Char} {start : ℕ} {ts : List Token}
    (hname : IsIdentifier name.toList) (h : Cut (start + name.toList.length + 1) (cs ++ rest) ts) :
    Cut start (name.toList ++ '(' :: (cs ++ rest)) (⟨.name, name.toList, start⟩ ::
      ⟨.leftParen, ['('], start + name.toList.length⟩ :: ts) := by
  have hparen : Cut (start + name.toList.length) (['('] ++ (cs ++ rest)) _ :=
    .lexeme .leftParen ['('] rfl h
  exact .lexeme _ _ (lexeme?_name hname (by simp; decide)) hparen

/-- A name and a pair of parentheses are read as a call without arguments. -/
theorem reads_callNone {name : String} (hname : IsIdentifier name.toList) :
    Reads (name.toList ++ ['(', ')']) 9 (.callNamed name []) := by
  intro start rest us _ hcut
  have hend : Cut (start + name.toList.length + 1 + 1) rest us := by
    rw [List.length_append, ← Nat.add_assoc] at hcut
    exact hcut
  have hcall : Cut start (name.toList ++ '(' :: ([] ++ _)) _ := cut_call hname hend.close
  refine ⟨[⟨.name, name.toList, start⟩, ⟨.leftParen, ['('], start + name.toList.length⟩,
    ⟨.rightParen, [')'], start + name.toList.length + 1⟩], by simpa using hcall, fun c _ => ?_⟩
  have htext : name = (⟨.name, name.toList, start⟩ : Token).text := String.ofList_toList.symm
  conv => rhs; rw [htext]
  exact Derives.loosen (d := .atom) (.callNone rfl rfl rfl) (strength_le c)

/-- A name and a list of arguments in parentheses are read as a call. -/
theorem ReadsArguments.call {name : String} {cs : List Char} {args : List Expr}
    (h : ReadsArguments cs args) (hname : IsIdentifier name.toList) :
    Reads (name.toList ++ '(' :: (cs ++ [')'])) 9 (.callNamed name args) := by
  intro start rest us _ hcut
  have hend : Cut (start + name.toList.length + 1 + cs.length + 1) rest us := by
    have hlen : start + (name.toList ++ '(' :: (cs ++ [')'])).length =
        start + name.toList.length + 1 + cs.length + 1 := by
      simp
      omega
    rwa [hlen] at hcut
  obtain ⟨ts, hts, harguments⟩ := h _ _ _ (by simp; decide) hend.close
  have hcall := cut_call hname hts
  refine ⟨⟨.name, name.toList, start⟩ :: ⟨.leftParen, ['('], start + name.toList.length⟩ ::
    (ts ++ [⟨.rightParen, [')'], start + name.toList.length + 1 + cs.length⟩]),
    by simpa using hcall, fun c _ => ?_⟩
  have htext : name = (⟨.name, name.toList, start⟩ : Token).text := String.ofList_toList.symm
  conv => rhs; rw [htext]
  exact Derives.loosen (d := .atom) (.callSome rfl rfl harguments rfl) (strength_le c)

namespace Expr

/-! ## The tree of the canonical text -/

mutual

/-- The tree that the canonical text of a formula has: a number below zero is the negation of its
magnitude, no number has a minus sign, and functions are named in upper case. -/
def reread : Expr → Expr
  | .literal x => if x.ticks < 0 then .unary .neg (.literal x.abs) else .literal x.abs
  | .variable name => .variable name
  | .unary op a => .unary op a.reread
  | .binary op a b => .binary op a.reread b.reread
  | .choice c a b => .choice c.reread a.reread b.reread
  | .call name args => .callNamed name (rereadAll args)

/-- The trees of the canonical texts of several formulas. -/
def rereadAll : List Expr → List Expr
  | [] => []
  | a :: rest => a.reread :: rereadAll rest

end

/-- Whether the name that a node carries, if any, names something. -/
def IsNamed : Expr → Prop
  | .variable name | .call name _ => IsIdentifier name.toList
  | _ => True

/-- Every canonical text is at least a phrase of the loosest category. -/
theorem one_le_level (e : Expr) : 1 ≤ e.level := by
  have hunary (op : UnaryOp) : 1 ≤ op.level := by cases op <;> decide
  have hbinary (op : BinaryOp) : 1 ≤ op.level := by cases op <;> decide
  induction e using Expr.induction with
  | literal x =>
    have hlevel : (literal x).level = if x.ticks < 0 then UnaryOp.neg.level else 9 := rfl
    rw [hlevel]
    split_ifs
    · exact hunary .neg
    · decide
  | unary op => exact hunary op
  | binary op => exact hbinary op
  | named | choice | call => exact Nat.le_of_ble_eq_true rfl

/-- The canonical text of a number reads as its magnitude or as the negation of that. -/
theorem reads_literal (x : Finite) :
    Reads (literal x).chars (literal x).level (literal x).reread := by
  obtain ⟨p, htext, hp, hrank⟩ := x.exists_parts_formulaText
  have hnumber := reads_number hp hrank
  have hlevel : (literal x).level = if x.ticks < 0 then UnaryOp.neg.level else 9 := rfl
  rw [chars, reread, htext, hlevel]
  by_cases hneg : x.ticks < 0
  · rw [if_pos hneg, if_pos hneg, decide_eq_true hneg]
    have hmono : Reads p.text UnaryOp.neg.level (literal x.abs) := by
      intro start rest us hrest hcut
      obtain ⟨ts, hts, hderives⟩ := hnumber start rest us hrest hcut
      exact ⟨ts, hts, fun c _ => hderives c (strength_le c)⟩
    exact hmono.neg
  · rw [if_neg hneg, if_neg hneg, decide_eq_false hneg]
    exact hnumber

/-- Canonical texts of arguments, of which there is at least one, read as arguments. -/
theorem readsArguments_argChars {a : Expr} {args : List Expr}
    (h : ∀ b ∈ a :: args, Reads b.chars b.level b.reread) :
    ReadsArguments (argChars (a :: args)) (rereadAll (a :: args)) := by
  induction args generalizing a with
  | nil =>
    have ha := h a List.mem_cons_self
    rw [argChars, rereadAll, rereadAll]
    exact ha.lastArgument (one_le_level a)
  | cons b args ih =>
    have ha := h a List.mem_cons_self
    have hargs := ih fun c hc => h c (List.mem_cons_of_mem a hc)
    rw [argChars, rereadAll]
    · exact ha.moreArguments (one_le_level a) hargs
    · simp

/-- The canonical text of a formula whose names name something is a phrase of its level. -/
theorem reads_chars {e : Expr} (h : e.Everywhere IsNamed) : Reads e.chars e.level e.reread := by
  induction e using Expr.induction with
  | literal x => exact reads_literal x
  | named name =>
    rw [everywhere_variable] at h
    exact reads_variable h
  | unary op a iha =>
    rw [everywhere_unary] at h
    rw [chars, reread]
    cases op with
    | neg => exact ((iha h.2).guarded (one_le_level a) _ (by decide)).neg
    | not => exact ((iha h.2).guarded (one_le_level a) _ (by decide)).not
  | binary op a b iha ihb =>
    rw [everywhere_binary] at h
    have hop : op.level + 1 ≤ 9 := by cases op <;> decide
    have ha := (iha h.2.1).guarded (one_le_level a) op.level (by omega)
    have hb := (ihb h.2.2).guarded (one_le_level b) (op.level + 1) hop
    rw [chars, reread]
    exact .binary op ha hb
  | choice c a b ihc iha ihb =>
    rw [everywhere_choice] at h
    have hc := (ihc h.2.1).guarded (one_le_level c) 2 (by decide)
    rw [chars, reread]
    exact hc.choice (iha h.2.2.1) (one_le_level a) (ihb h.2.2.2) (one_le_level b)
  | call name args ih =>
    rw [everywhere_call] at h
    rw [chars, reread]
    cases args with
    | nil => exact reads_callNone h.1
    | cons a args =>
      have hargs := readsArguments_argChars fun b hb => ih b hb (h.2 b hb)
      exact hargs.call h.1

end Expr

end PayrollFormula
