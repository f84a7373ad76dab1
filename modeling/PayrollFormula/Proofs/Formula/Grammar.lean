import PayrollFormula.Formula.Parsing

/-!
# The grammar of formulas

The grammar has nine categories of phrases, from the loosest to the tightest. A phrase of a tighter
category is one of every looser category too. `Joins` lists the operators between two operands:
the left operand is of the operator's own category and the right one of the next tighter category,
which makes all of them left-associative. A choice has a choice on its right side, so it is
right-associative, and whatever stands between question mark and colon is unrestricted.
-/

set_option autoImplicit false

namespace PayrollFormula

namespace Grammar

/-- The categories of phrases, from the loosest to the tightest. -/
inductive Category where
  | ternary
  | disjunction
  | conjunction
  | negation
  | comparison
  | additive
  | multiplicative
  | unary
  | atom
deriving DecidableEq, Repr

/-- The next tighter category. -/
def Category.tighter? : Category → Option Category
  | .ternary => some .disjunction
  | .disjunction => some .conjunction
  | .conjunction => some .negation
  | .negation => some .comparison
  | .comparison => some .additive
  | .additive => some .multiplicative
  | .multiplicative => some .unary
  | .unary => some .atom
  | .atom => none

/-- The place of a category among all, from one for the loosest to nine for the tightest. -/
def Category.strength : Category → Nat
  | .ternary => 1
  | .disjunction => 2
  | .conjunction => 3
  | .negation => 4
  | .comparison => 5
  | .additive => 6
  | .multiplicative => 7
  | .unary => 8
  | .atom => 9

/-- The operators between two operands: `Joins c k op d` says that a token of kind `k` stands for
`op` between a phrase of category `c` and one of category `d`, and that the whole is of category
`c` again. -/
inductive Joins : Category → TokenKind → BinaryOp → Category → Prop where
  | or : Joins .disjunction .or .or .conjunction
  | and : Joins .conjunction .and .and .negation
  | eq : Joins .comparison .equal .eq .additive
  | ne : Joins .comparison .unequal .ne .additive
  | le : Joins .comparison .atMost .le .additive
  | ge : Joins .comparison .atLeast .ge .additive
  | lt : Joins .comparison .less .lt .additive
  | gt : Joins .comparison .greater .gt .additive
  | add : Joins .additive .plus .add .multiplicative
  | sub : Joins .additive .minus .sub .multiplicative
  | mul : Joins .multiplicative .star .mul .unary
  | div : Joins .multiplicative .slash .div .unary
  | mod : Joins .multiplicative .percent .mod .unary

mutual

/-- The phrases of a category with their trees. Parentheses leave no node, a function is named in
upper case, and a numeral has to be in the range of doubles. -/
inductive Derives : Category → List Token → Expr → Prop where
  | tighter {c d : Category} {ts : List Token} {e : Expr} :
      c.tighter? = some d → Derives d ts e → Derives c ts e
  | choice {q m : Token} {ts us vs : List Token} {c a b : Expr} :
      Derives .disjunction ts c → q.kind = .question → Derives .ternary us a →
      m.kind = .colon → Derives .ternary vs b →
      Derives .ternary (ts ++ q :: (us ++ m :: vs)) (.choice c a b)
  | binary {c d : Category} {op : BinaryOp} {t : Token} {ts us : List Token} {a b : Expr} :
      Joins c t.kind op d → Derives c ts a → Derives d us b →
      Derives c (ts ++ t :: us) (.binary op a b)
  | not {t : Token} {ts : List Token} {a : Expr} :
      t.kind = .not → Derives .negation ts a → Derives .negation (t :: ts) (.unary .not a)
  | neg {t : Token} {ts : List Token} {a : Expr} :
      t.kind = .minus → Derives .unary ts a → Derives .unary (t :: ts) (.unary .neg a)
  | number {t : Token} {x : Finite} :
      t.kind = .number → t.number? = some x → Derives .atom [t] (.literal x)
  | named {t : Token} : t.kind = .name → Derives .atom [t] (.variable t.text)
  | group {l r : Token} {ts : List Token} {e : Expr} :
      l.kind = .leftParen → Derives .ternary ts e → r.kind = .rightParen →
      Derives .atom (l :: (ts ++ [r])) e
  | callNone {f l r : Token} :
      f.kind = .name → l.kind = .leftParen → r.kind = .rightParen →
      Derives .atom [f, l, r] (.callNamed f.text [])
  | callSome {f l r : Token} {ts : List Token} {args : List Expr} :
      f.kind = .name → l.kind = .leftParen → Arguments ts args → r.kind = .rightParen →
      Derives .atom (f :: l :: (ts ++ [r])) (.callNamed f.text args)

/-- One or more arguments, separated by commas. -/
inductive Arguments : List Token → List Expr → Prop where
  | last {ts : List Token} {a : Expr} : Derives .ternary ts a → Arguments ts [a]
  | more {t : Token} {ts us : List Token} {a : Expr} {rest : List Expr} :
      Derives .ternary ts a → t.kind = .comma → Arguments us rest →
      Arguments (ts ++ t :: us) (a :: rest)

end

/-! ## Categories and operators -/

/-- The next tighter category is the next one in strength. -/
theorem strength_tighter {c d : Category} (h : c.tighter? = some d) :
    d.strength = c.strength + 1 := by
  cases c <;> cases h <;> rfl

/-- Categories are told apart by their strengths. -/
theorem strength_inj {c d : Category} (h : c.strength = d.strength) : c = d := by
  cases c <;> cases d <;> first | rfl | cases h

/-- Every category but the tightest has a next tighter one. -/
theorem exists_tighter {c : Category} (h : c.strength < 9) : ∃ d, c.tighter? = some d := by
  cases c <;> first | exact ⟨_, rfl⟩ | (simp [Category.strength] at h)

/-- There are nine categories. -/
theorem strength_le (c : Category) : c.strength ≤ 9 := by
  cases c <;> decide

/-- A phrase of a category is one of every looser category. -/
theorem Derives.loosen {c d : Category} {ts : List Token} {e : Expr}
    (h : Derives d ts e) (hle : c.strength ≤ d.strength) : Derives c ts e := by
  -- The induction is on the number of places between the two categories.
  obtain ⟨k, hk⟩ := Nat.exists_eq_add_of_le hle
  induction k generalizing c with
  | zero =>
    have heq : c = d := strength_inj hk.symm
    exact heq ▸ h
  | succ k ih =>
    have hd := strength_le d
    obtain ⟨c', hc'⟩ := exists_tighter (c := c) (by omega)
    have hs := strength_tighter hc'
    exact .tighter hc' (ih (by omega) (by omega))

/-- The tokens that join two operands are those of the parser's table. -/
theorem Joins.binaryOp? {c d : Category} {k : TokenKind} {op : BinaryOp} (h : Joins c k op d) :
    Parsing.binaryOp? k = some op := by
  cases h <;> rfl

/-- A phrase before an operator has to be of the operator's level. -/
theorem Joins.strength_left {c d : Category} {k : TokenKind} {op : BinaryOp}
    (h : Joins c k op d) : c.strength = op.level := by
  cases h <;> rfl

/-- A phrase after an operator has to be of the level above the operator's. -/
theorem Joins.strength_right {c d : Category} {k : TokenKind} {op : BinaryOp}
    (h : Joins c k op d) : d.strength = op.level + 1 := by
  cases h <;> rfl

/-- Every token of the parser's table joins two operands. -/
theorem exists_joins {k : TokenKind} {op : BinaryOp} (h : Parsing.binaryOp? k = some op) :
    ∃ c d, Joins c k op d := by
  cases k <;> cases h <;> exact ⟨_, _, by constructor⟩

/-! ## The tokens of a phrase -/

/-- Whether a phrase can start with a token of a kind. -/
def startsPhrase : TokenKind → Bool
  | .number | .name | .leftParen | .minus | .not => true
  | _ => false

/-- A phrase has a first token, with which a phrase can start. -/
theorem Derives.exists_cons {c : Category} {ts : List Token} {e : Expr} (h : Derives c ts e) :
    ∃ t rest, ts = t :: rest ∧ startsPhrase t.kind = true := by
  induction h using Derives.rec (motive_2 := fun _ _ _ => True) with
  | tighter _ _ ih => exact ih
  | choice _ _ _ _ _ ih _ _ =>
    obtain ⟨t, rest, rfl, ht⟩ := ih
    exact ⟨t, _, List.cons_append, ht⟩
  | binary _ _ _ ih _ =>
    obtain ⟨t, rest, rfl, ht⟩ := ih
    exact ⟨t, _, List.cons_append, ht⟩
  | last | more => trivial
  | not hk | neg hk | number hk | named hk | group hk | callNone hk | callSome hk =>
    exact ⟨_, _, rfl, by rw [hk]; rfl⟩

/-- Arguments start with a token with which a phrase can start. -/
theorem Arguments.exists_cons {ts : List Token} {args : List Expr} (h : Arguments ts args) :
    ∃ t rest, ts = t :: rest ∧ startsPhrase t.kind = true := by
  cases h with
  | last ha => exact ha.exists_cons
  | more ha _ _ =>
    obtain ⟨t, rest, rfl, ht⟩ := ha.exists_cons
    exact ⟨t, _, List.cons_append, ht⟩

/-- No operator is a numeral. -/
theorem Joins.kind_ne_number {c d : Category} {k : TokenKind} {op : BinaryOp}
    (h : Joins c k op d) : k ≠ .number := by
  cases h <;> decide

/-- No operator is a name. -/
theorem Joins.kind_ne_name {c d : Category} {k : TokenKind} {op : BinaryOp}
    (h : Joins c k op d) : k ≠ .name := by
  cases h <;> decide

/-- No operator is an opening parenthesis. -/
theorem Joins.kind_ne_leftParen {c d : Category} {k : TokenKind} {op : BinaryOp}
    (h : Joins c k op d) : k ≠ .leftParen := by
  cases h <;> decide

/-- The numerals among some tokens are in the range of doubles. -/
def InRange (ts : List Token) : Prop := ∀ t ∈ ts, t.isOutOfRange = false

/-- The empty list of tokens is in range. -/
@[simp] theorem inRange_nil : InRange [] := by
  simp [InRange]

/-- Tokens are in range if the first and the others are. -/
@[simp] theorem inRange_cons (t : Token) (ts : List Token) :
    InRange (t :: ts) ↔ t.isOutOfRange = false ∧ InRange ts := by
  simp [InRange]

/-- Tokens and others are in range if both are. -/
@[simp] theorem inRange_append (ts us : List Token) :
    InRange (ts ++ us) ↔ InRange ts ∧ InRange us := by
  simp [InRange, or_imp, forall_and]

/-- No token but a numeral is beyond the range of doubles. -/
theorem isOutOfRange_of_kind {t : Token} (h : t.kind ≠ .number) : t.isOutOfRange = false := by
  simp [Token.isOutOfRange, h]

/-- The numerals of a phrase are in the range of doubles. -/
theorem Derives.inRange {c : Category} {ts : List Token} {e : Expr} (h : Derives c ts e) :
    InRange ts := by
  induction h using Derives.rec (motive_2 := fun ts _ _ => InRange ts) with
  | tighter _ _ ih => exact ih
  | last _ ih => exact ih
  | number hk hx => simp [Token.isOutOfRange, hk, hx]
  | binary hj _ _ iha ihb =>
    have ht := isOutOfRange_of_kind hj.kind_ne_number
    simp [iha, ht, ihb]
  | choice | more | not | neg | named | group | callNone | callSome =>
    simp_all [isOutOfRange_of_kind]

end Grammar

end PayrollFormula
