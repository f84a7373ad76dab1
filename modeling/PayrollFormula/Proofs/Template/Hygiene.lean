import PayrollFormula.Proofs.Formula.Operands
import PayrollFormula.Proofs.Formula.Replacement
import PayrollFormula.Proofs.Formula.RoundTrip
import PayrollFormula.Proofs.Template.Parameters

/-!
# Numbers in the place of placeholders

A template's formula can be read before its parameters have numbers, if each placeholder is
replaced by a name of its own with blanks around it. The numbers that are written into the formula
stand in the tree where these names stand as variables (`apply_hygienic`): no operator, number or
name around a placeholder is read differently because of the text that takes its place.

The proof goes through the tokens. `Segment.Follows.exists_replaced` follows the formula with the
names lexeme by lexeme, and finds the same lexemes in the formula with the numbers, apart from the
names, which give way to the numbers' tokens.
-/

set_option autoImplicit false

namespace PayrollFormula

open Grammar

namespace Segment

/-! ## Spelling out segments -/

/-- The text of a segment, given a text for each placeholder. -/
def spell (texts : String → List Char) : Segment → List Char
  | .plain c => [c]
  | .placeholder name => texts (String.ofList name)

/-- The text of segments, given a text for each placeholder. -/
def spellAll (texts : String → List Char) (segs : List Segment) : List Char :=
  segs.flatMap (spell texts)

/-- Whether one segment may come right before another: a letter may not before a placeholder. -/
def mayPrecede : Segment → Segment → Bool
  | .plain c, .placeholder _ => !c.isAlpha
  | _, _ => true

/-- Whether no placeholder comes right after an ASCII letter. -/
def Unattached (segs : List Segment) : Prop := segs.IsChain fun s s' => mayPrecede s s' = true

instance (segs : List Segment) : Decidable (Unattached segs) :=
  inferInstanceAs (Decidable (segs.IsChain _))

/-- If no placeholder comes right after a letter, none does among the last segments. -/
theorem Unattached.drop (before : List Segment) {after : List Segment}
    (h : Unattached (before ++ after)) : Unattached after :=
  (List.isChain_append.mp h).2.1

/-- A name with blanks around it for each placeholder. -/
def detached (fresh : String → String) (name : String) : List Char :=
  ' ' :: ((fresh name).toList ++ [' '])

/-- A blank for each placeholder. -/
def blank (_ : String) : List Char := [' ']

section Spell

variable {texts : String → List Char}

/-- Without segments there is no text. -/
@[simp] theorem spellAll_nil : spellAll texts [] = [] := rfl

/-- A plain character stands before the text of the other segments. -/
@[simp] theorem spellAll_plain (c : Char) (segs : List Segment) :
    spellAll texts (.plain c :: segs) = c :: spellAll texts segs := rfl

/-- The text for a placeholder stands before that of the other segments. -/
@[simp] theorem spellAll_placeholder (name : List Char) (segs : List Segment) :
    spellAll texts (.placeholder name :: segs) =
      texts (String.ofList name) ++ spellAll texts segs := rfl

/-- Plain characters are spelled as they are. -/
theorem spellAll_map_plain (chars : List Char) (segs : List Segment) :
    spellAll texts (chars.map .plain ++ segs) = chars ++ spellAll texts segs := by
  induction chars with
  | nil => rfl
  | cons c chars ih => rw [List.map_cons, List.cons_append, spellAll_plain, ih, List.cons_append]

/-- If the placeholders' texts start with blanks, a text without blanks in front of the spelled
segments comes from plain characters. -/
theorem exists_of_spellAll_eq (htexts : ∀ name, (texts name).head? = some ' ')
    {segs : List Segment} {chars rest : List Char} (h : spellAll texts segs = chars ++ rest)
    (hchars : ' ' ∉ chars) :
    ∃ after, segs = chars.map .plain ++ after ∧ rest = spellAll texts after := by
  induction chars generalizing segs with
  | nil => exact ⟨segs, rfl, h.symm⟩
  | cons c chars ih =>
    rw [List.mem_cons, not_or] at hchars
    cases segs with
    | nil => cases h
    | cons seg segs =>
      cases seg with
      | plain d =>
        rw [spellAll_plain, List.cons_append, List.cons.injEq] at h
        obtain ⟨rfl, h⟩ := h
        obtain ⟨after, rfl, hrest⟩ := ih h hchars.2
        exact ⟨after, rfl, hrest⟩
      | placeholder name =>
        obtain ⟨tail, htail⟩ := List.head?_eq_some_iff.mp (htexts (String.ofList name))
        rw [spellAll_placeholder, htail, List.cons_append, List.cons_append, List.cons.injEq] at h
        exact absurd h.1 hchars.1

end Spell

/-! ## From names to operands, lexeme by lexeme -/

/-- What is needed of a placeholder that gives way to an operand: a name, and a text that is an
operand with another tree than the name's variable. -/
structure Filled (fresh : String → String) (texts : String → List Char) (σ : String → Expr)
    (name : String) : Prop where
  identifier : IsIdentifier (fresh name).toList
  operand : OperandText (texts name) (σ (fresh name))
  stands : σ (fresh name) ≠ .variable (fresh name)

section Lexemes

variable {fresh : String → String} {texts : String → List Char} {σ : String → Expr}
  {k : TokenKind} {chars name : List Char} {segs : List Segment} {start start' : ℕ}
  {t : Token} {ts : List Token}

/-- Blanks and detached names for placeholders start alike. -/
theorem head?_spellAll_blank (segs : List Segment) :
    (spellAll blank segs).head? = (spellAll (detached fresh) segs).head? := by
  cases segs with
  | nil => rfl
  | cons seg segs => cases seg <;> rfl

/-- A placeholder's name between blanks is a token of its own. -/
theorem cut_detached (h : Cut start (spellAll (detached fresh) (.placeholder name :: segs)) ts)
    (hid : IsIdentifier (fresh (String.ofList name)).toList) :
    ∃ start' us, ts = ⟨.name, (fresh (String.ofList name)).toList, start + 1⟩ :: us ∧
      Cut start' (spellAll (detached fresh) segs) us := by
  have hword : Cut (start + 1) ((fresh (String.ofList name)).toList ++
      ' ' :: spellAll (detached fresh) segs) ts := by
    rw [spellAll_placeholder, detached, List.cons_append, cut_space_iff rfl, List.append_assoc] at h
    exact h
  obtain ⟨us, rfl, hrest⟩ := hword.after_lexeme (lexeme?_name hid (by simp; decide))
  exact ⟨_, us, rfl, (cut_space_iff rfl).mp hrest⟩

/-- Among separated tokens, none before a placeholder's name is an operand. -/
theorem isOperand_eq_false_of_placeholder
    (hcut : Cut start (spellAll (detached fresh) (.placeholder name :: segs)) ts)
    (hid : IsIdentifier (fresh (String.ofList name)).toList) (hsep : Separated (t :: ts)) :
    isOperand t.kind = false := by
  obtain ⟨start', us, rfl, -⟩ := cut_detached hcut hid
  by_contra hk
  have hname := (separated_cons.mp hsep).1 _ rfl (by simpa using hk)
  cases hname

/-- After an operand, the text that is filled in does not go on with a numeral. -/
theorem stops_spellAll (hcut : Cut start (spellAll (detached fresh) segs) ts)
    (hsep : Separated (t :: ts)) (ht : isOperand t.kind = true)
    (hfilled : ∀ name, .placeholder name ∈ segs → Filled fresh texts σ (String.ofList name)) :
    Stops Numeral.continues (spellAll texts segs) := by
  have hstop := hcut.stops_continues fun u hu => (separated_cons.mp hsep).1 u hu ht
  cases segs with
  | nil => exact stops_nil _
  | cons seg segs =>
    cases seg with
    | plain c =>
      rw [spellAll_plain, stops_cons] at hstop ⊢
      exact hstop
    | placeholder name =>
      have hid := (hfilled name List.mem_cons_self).identifier
      rw [isOperand_eq_false_of_placeholder hcut hid hsep] at ht
      cases ht

/-- A lexeme in the formula with the names is one in the formula with the texts. -/
theorem lexeme?_spellAll
    (hlex : lexeme? (chars ++ spellAll (detached fresh) segs) = some (k, chars))
    (hcut : Cut start (spellAll (detached fresh) segs) ts)
    (hsep : Separated (⟨k, chars, start'⟩ :: ts))
    (hletters : Unattached (chars.map .plain ++ segs))
    (hfilled : ∀ name, .placeholder name ∈ segs → Filled fresh texts σ (String.ofList name)) :
    lexeme? (chars ++ spellAll texts segs) = some (k, chars) := by
  cases segs with
  | nil => exact hlex
  | cons seg segs =>
    cases seg with
    | plain c => exact lexeme?_congr hlex hcut hsep rfl
    | placeholder name =>
      -- Before a placeholder there is an operator or a mark, which its text cannot continue.
      obtain ⟨hid, htext, -⟩ := hfilled name List.mem_cons_self
      have hk : isOperand k = false := isOperand_eq_false_of_placeholder hcut hid hsep
      have hnumber : k ≠ .number := by
        rintro rfl
        cases hk
      have hname : k ≠ .name := by
        rintro rfl
        cases hk
      have hlast : ∀ c ∈ chars.getLast?, c.isAlpha = false := by
        intro c hc
        have hmay := (List.isChain_append.mp hletters).2.2 (.plain c)
          (by rw [List.getLast?_map, hc]; rfl) (.placeholder name) rfl
        simpa [mayPrecede] using hmay
      have hhead : (spellAll texts (.placeholder name :: segs)).head? ≠ some '=' := by
        obtain ⟨c, tail, hcons, hc⟩ := htext.starts
        rw [spellAll_placeholder, hcons]
        simpa using hc
      apply ((isLexeme_of_lexeme? hlex).before_operand hnumber hname hlast hhead).lexeme?_eq
      intro hk'
      exact absurd hk' hnumber

variable (fresh texts σ) in
/-- What holds of the formula with the names from some segment on: it is cut into tokens that keep
operands apart, no placeholder comes right after a letter, each of them gives way to an operand, and
any other name among the tokens stands for its variable. -/
structure Follows (segs : List Segment) (ts : List Token) : Prop where
  cut : ∃ start, Cut start (spellAll (detached fresh) segs) ts
  separated : Separated ts
  letters : Unattached segs
  filled : ∀ name, .placeholder name ∈ segs → Filled fresh texts σ (String.ofList name)
  plain : ∃ start, ∀ u ∈ (scanFrom 0 start (spellAll blank segs)).tokens,
    σ u.text = .variable u.text

/-- The tokens of a placeholder and what comes after it start with its name. -/
theorem Follows.after_placeholder (h : Follows fresh texts σ (.placeholder name :: segs) ts) :
    ∃ start us, ts = ⟨.name, (fresh (String.ofList name)).toList, start⟩ :: us ∧
      Follows fresh texts σ segs us ∧ Stops Numeral.continues (spellAll texts segs) := by
  obtain ⟨⟨start, hcut⟩, hsep, hletters, hfilled, i, hplain⟩ := h
  obtain ⟨start', us, rfl, hrest⟩ := cut_detached hcut (hfilled name List.mem_cons_self).identifier
  have hfilled' : ∀ name, .placeholder name ∈ segs → Filled fresh texts σ (String.ofList name) :=
    fun name h => hfilled name (List.mem_cons_of_mem _ h)
  refine ⟨start + 1, us, rfl, ⟨⟨start', hrest⟩, (separated_cons.mp hsep).2,
    hletters.drop [_], hfilled', i + 1, ?_⟩, stops_spellAll hrest hsep rfl hfilled'⟩
  rwa [spellAll_placeholder, blank, List.singleton_append, scanFrom, if_pos (by rfl)] at hplain

/-- A blank has no token. -/
theorem Follows.after_space {c : Char} (h : Follows fresh texts σ (.plain c :: segs) ts)
    (hspace : isSpace c = true) : Follows fresh texts σ segs ts := by
  obtain ⟨⟨start, hcut⟩, hsep, hletters, hfilled, i, hplain⟩ := h
  refine ⟨⟨start + 1, (cut_space_iff hspace).mp hcut⟩, hsep, hletters.drop [_], ?_,
    i + 1, ?_⟩
  · intro name hmem
    exact hfilled name (List.mem_cons_of_mem _ hmem)
  · rwa [spellAll_plain, scanFrom, if_pos hspace] at hplain

/-- The tokens of other characters start with one that the filled text has too. -/
theorem Follows.after_lexeme {c : Char} (h : Follows fresh texts σ (.plain c :: segs) ts)
    (hspace : isSpace c = false) :
    ∃ u after us, .plain c :: segs = u.chars.map .plain ++ after ∧ u.chars ≠ [] ∧ ts = u :: us ∧
      lexeme? (u.chars ++ spellAll texts after) = some (u.kind, u.chars) ∧
      σ u.text = .variable u.text ∧ Follows fresh texts σ after us := by
  obtain ⟨⟨start, hcut⟩, hsep, hletters, hfilled, i, hplain⟩ := h
  rw [spellAll_plain] at hcut
  obtain ⟨k, chars, rest, htext, hlex⟩ := hcut.exists_lexeme hspace
  have hlexeme := isLexeme_of_lexeme? hlex
  rw [← spellAll_plain] at hcut htext
  -- There is no blank in a lexeme, so none of the names either.
  obtain ⟨after, hsegs, rfl⟩ := exists_of_spellAll_eq (fun _ => rfl) htext hlexeme.blank_not_mem
  rw [hsegs] at hcut hletters hfilled hplain
  rw [spellAll_map_plain] at hcut hplain
  obtain ⟨us, rfl, hrest⟩ := hcut.after_lexeme hlex
  have hafter : ∀ name, .placeholder name ∈ after → Filled fresh texts σ (String.ofList name) :=
    fun name hmem => hfilled name (List.mem_append_right _ hmem)
  have hblank := lexeme?_congr hlex hrest hsep (head?_spellAll_blank after)
  rw [scanFrom_lexeme hblank, List.forall_mem_cons] at hplain
  exact ⟨⟨k, chars, start⟩, after, us, hsegs, hlexeme.ne_nil, rfl,
    lexeme?_spellAll hlex hrest hsep hletters hafter, hplain.1, ⟨_, hrest⟩,
    (separated_cons.mp hsep).2, hletters.drop _, hafter, _, hplain.2⟩

/-- The formula with the texts is cut into the tokens of the formula with the names, apart from the
names, each of which gives way to the operand that is its text. -/
theorem Follows.exists_replaced (h : Follows fresh texts σ segs ts) (start : ℕ) :
    ∃ us, Cut start (spellAll texts segs) us ∧ Replaced σ ts us := by
  -- The induction is on the number of segments, since a lexeme may take several of them at once.
  induction hn : segs.length using Nat.strong_induction_on generalizing segs ts start with
  | _ n ih =>
    cases segs with
    | nil =>
      obtain ⟨_, hcut⟩ := h.cut
      obtain rfl := cut_nil_iff.mp hcut
      exact ⟨[], .nil start, .nil⟩
    | cons seg segs =>
      have hshort : segs.length < n := by
        rw [← hn]
        exact Nat.lt_succ_self _
      cases seg with
      | placeholder name =>
        obtain ⟨-, htext, hstands⟩ := h.filled name List.mem_cons_self
        obtain ⟨i, us, rfl, hrest, hstop⟩ := h.after_placeholder
        obtain ⟨vs, hvs, hreplaced⟩ :=
          ih segs.length hshort hrest (start + (texts (String.ofList name)).length) rfl
        obtain ⟨ws, hws, hderives⟩ := htext.cut start _ vs hstop hvs
        have hname : (⟨.name, (fresh (String.ofList name)).toList, i⟩ : Token).text =
            fresh (String.ofList name) := String.ofList_toList
        rw [← hname] at hstands hderives
        exact ⟨ws ++ vs, hws, .operand rfl hstands hderives hreplaced⟩
      | plain c =>
        by_cases hspace : isSpace c = true
        · obtain ⟨vs, hvs, hreplaced⟩ :=
            ih segs.length hshort (h.after_space hspace) (start + 1) rfl
          exact ⟨vs, .space hspace hvs, hreplaced⟩
        · rw [Bool.not_eq_true] at hspace
          obtain ⟨u, after, us, hsegs, hne, rfl, hlex, hu, hrest⟩ := h.after_lexeme hspace
          rw [hsegs] at hn ⊢
          have hfewer : after.length < n := by
            have hpos := List.length_pos_iff.mpr hne
            rw [← hn, List.length_append, List.length_map]
            omega
          obtain ⟨vs, hvs, hreplaced⟩ :=
            ih after.length hfewer hrest (start + u.chars.length) rfl
          rw [spellAll_map_plain]
          exact ⟨_, .lexeme u.kind u.chars hlex hvs, .kept rfl rfl (fun _ => hu) hreplaced⟩

end Lexemes

end Segment

/-! ## Numbers as formulas -/

/-- A double below zero has its negation for an absolute value. -/
theorem Finite.neg_eq_abs {x : Finite} (h : x.ticks < 0) : x.neg = x.abs := by
  have hsign := (ticks_neg_iff.mp h).1
  rw [neg, abs, hsign]
  rfl

namespace Expr

/-- A number as a formula: a literal, or the negation of one for a number below zero. -/
def ofNumber (x : Finite) : Expr := if x.ticks < 0 then .unary .neg (.literal x.neg) else .literal x

/-- The formula for a number is read again as the number is. -/
theorem reread_ofNumber (x : Finite) : (ofNumber x).reread = (literal x).reread := by
  unfold ofNumber
  by_cases h : x.ticks < 0
  · have hpos : ¬ x.neg.ticks < 0 := by
      rw [Finite.neg_eq_abs h]
      exact not_lt.mpr x.ticks_abs_nonneg
    rw [if_pos h, reread, reread, reread, if_neg hpos, if_pos h]
    rfl
  · rw [if_neg h]

/-- The formula for a number is well formed. -/
theorem wellFormed_ofNumber (x : Finite) : (ofNumber x).WellFormed := by
  unfold ofNumber
  by_cases h : x.ticks < 0
  · rw [if_pos h, Finite.neg_eq_abs h, WellFormed, everywhere_unary, everywhere_literal]
    exact ⟨trivial, x.ticks_abs_nonneg⟩
  · rw [if_neg h, WellFormed, everywhere_literal]
    exact not_lt.mp h

end Expr

/-- The text that is written for a finite number is an operand with the number's tree. -/
theorem operandText_operandText (x : Finite) :
    OperandText (Template.operandText (.finite x)) (Expr.ofNumber x).reread := by
  obtain ⟨p, hp, hrank, htext⟩ := Template.exists_operand x
  rw [htext, Expr.reread_ofNumber, Expr.reread]
  by_cases h : x.ticks < 0
  · rw [if_pos h, if_pos h]
    exact operandText_neg hp hrank
  · rw [if_neg h, if_neg h]
    exact operandText_number hp hrank

namespace Template

variable {t : Template} {fresh : String → String} {numbers : List (String × Double)}

/-! ## Variables in the place of placeholders -/

/-- The formula with a name between blanks in the place of each placeholder. -/
def withNames (t : Template) (fresh : String → String) : String :=
  String.ofList (Segment.spellAll (Segment.detached fresh) t.segments)

/-- The formula with a blank in the place of each placeholder. -/
def withBlanks (t : Template) : String := String.ofList (Segment.spellAll Segment.blank t.segments)

/-- Whether placeholders have names of their own: names that can stand in a formula, no two the
same, and none of them a token of the template's formula. -/
structure Fresh (t : Template) (fresh : String → String) : Prop where
  identifier : ∀ p ∈ t.placeholders, IsIdentifier (fresh p).toList
  injective : ∀ p ∈ t.placeholders, ∀ q ∈ t.placeholders, fresh p = fresh q → p = q
  absent : ∀ p ∈ t.placeholders, ∀ u ∈ (scan t.withBlanks.toList).tokens, u.text ≠ fresh p

/-- The formula that a variable stands for: a number, if the variable is the name of its parameter,
and otherwise the variable itself. -/
def standsFor (fresh : String → String) (numbers : List (String × Double)) (name : String) : Expr :=
  match numbers.find? (fun q => fresh q.1 = name) with
  | some (_, .finite x) => .ofNumber x
  | _ => .variable name

/-- A variable stands for itself or for a number. -/
theorem standsFor_cases (fresh : String → String) (numbers : List (String × Double))
    (name : String) :
    standsFor fresh numbers name = .variable name ∨
      ∃ x, standsFor fresh numbers name = .ofNumber x := by
  unfold standsFor
  split
  · exact .inr ⟨_, rfl⟩
  · exact .inl rfl

/-- A variable that is no parameter's name stands for itself. -/
theorem standsFor_of_not_mem {name : String} (h : ∀ q ∈ numbers, fresh q.1 ≠ name) :
    standsFor fresh numbers name = .variable name := by
  unfold standsFor
  rw [List.find?_eq_none.mpr (by simpa using h)]

/-- The name of a parameter stands for its number. -/
theorem standsFor_fresh {p : String} {x : Finite} (h : numbers.lookup p = some (.finite x))
    (hinjective : ∀ q ∈ numbers, fresh q.1 = fresh p → q.1 = p) :
    standsFor fresh numbers (fresh p) = .ofNumber x := by
  obtain ⟨before, after, rfl, hbefore⟩ := List.lookup_eq_some_iff.mp h
  have hfind : (before ++ (p, .finite x) :: after).find? (fun q => fresh q.1 = fresh p) =
      some (p, .finite x) := by
    refine List.find?_eq_some_iff_append.mpr ⟨by simp, before, after, rfl, ?_⟩
    intro q hq
    have hne : q.1 ≠ p := by
      rintro rfl
      simpa using hbefore q hq
    have hsame := mt (hinjective q (List.mem_append_left _ hq)) hne
    simpa using hsame
  rw [standsFor, hfind]

/-- Exactly the placeholders of a loaded template have numbers. -/
theorem mem_map_fst_iff {place : String} {document : Value} {c : Catalogue}
    (hload : Catalogue.load place document = .ok c) (ht : t ∈ c) {values : Fields}
    (hresolve : t.resolve values = .ok numbers) (p : String) :
    p ∈ numbers.map Prod.fst ↔ p ∈ t.placeholders := by
  rw [map_fst_of_resolve hresolve, Catalogue.placeholders_of_load hload ht]

section Filling

variable (hnames : ∀ p, p ∈ numbers.map Prod.fst ↔ p ∈ t.placeholders)
  (hfinite : ∀ q ∈ numbers, q.2.isFinite = true) (hfresh : t.Fresh fresh)

include hnames in
/-- A name with a number is a placeholder. -/
theorem mem_placeholders_of_mem {q : String × Double} (hq : q ∈ numbers) : q.1 ∈ t.placeholders :=
  (hnames q.1).mp (List.mem_map_of_mem hq)

include hnames hfinite in
/-- A placeholder has a finite number. -/
theorem exists_lookup {p : String} (hp : p ∈ t.placeholders) :
    ∃ x, numbers.lookup p = some (.finite x) := by
  obtain ⟨x, hx, hmem⟩ := exists_lookup_of_mem ((hnames p).mpr hp)
  have hfin : x.isFinite = true := hfinite (p, x) hmem
  cases x with
  | finite x => exact ⟨x, hx⟩
  | infinite | nan => cases hfin

include hnames hfinite hfresh in
/-- Every placeholder gives way to the operand that its name stands for. -/
theorem filled {name : List Char} (hname : .placeholder name ∈ t.segments) :
    Segment.Filled fresh (fun p => fill numbers (.placeholder p.toList))
      (fun n => (standsFor fresh numbers n).reread) (String.ofList name) := by
  have hp := mem_placeholders hname
  obtain ⟨x, hx⟩ := exists_lookup hnames hfinite hp
  have hstands : standsFor fresh numbers (fresh (String.ofList name)) = .ofNumber x := by
    apply standsFor_fresh hx
    intro q hq hsame
    exact hfresh.injective _ (mem_placeholders_of_mem hnames hq) _ hp hsame
  refine ⟨hfresh.identifier _ hp, ?_, ?_⟩
  · rw [hstands, fill, String.ofList_toList, hx]
    exact operandText_operandText x
  · rw [hstands, Expr.reread_ofNumber, Expr.reread]
    split_ifs <;> simp

include hnames in
/-- A variable that is no placeholder's name stands for itself. -/
theorem standsFor_of_not_placeholder {name : String}
    (h : ∀ p ∈ t.placeholders, fresh p ≠ name) :
    standsFor fresh numbers name = .variable name :=
  standsFor_of_not_mem fun q hq => h q.1 (mem_placeholders_of_mem hnames hq)

include hnames hfinite hfresh in
/-- The tokens of a template's formula with names in it follow its segments. -/
theorem follows (hletters : Segment.Unattached t.segments) {ts : List Token}
    (hcut : Cut 0 (t.withNames fresh).toList ts) (hsep : Separated ts) :
    Segment.Follows fresh (fun p => fill numbers (.placeholder p.toList))
      (fun n => (standsFor fresh numbers n).reread) t.segments ts := by
  rw [withNames, String.toList_ofList] at hcut
  refine ⟨⟨0, hcut⟩, hsep, hletters, fun name => filled hnames hfinite hfresh, 0, ?_⟩
  intro u hu
  have hstands : standsFor fresh numbers u.text = .variable u.text := by
    apply standsFor_of_not_placeholder hnames
    intro p hp
    refine (hfresh.absent p hp u ?_).symm
    rwa [withBlanks, String.toList_ofList]
  rw [hstands, Expr.reread]

include hnames in
/-- If no placeholder's name is called, nothing that stands for something else is. -/
theorem uncalled {e : Expr} (h : e.Everywhere (Expr.Uncalled (· ∈ t.placeholders.map fresh))) :
    e.Everywhere
      (Expr.Uncalled fun n => (standsFor fresh numbers n).reread ≠ .variable n) := by
  refine h.mono fun node hnode => ?_
  cases node with
  | call name args =>
    intro n hn
    apply hnode n
    by_contra hnot
    have hstands : standsFor fresh numbers n = .variable n := by
      apply standsFor_of_not_placeholder hnames
      rintro p hp rfl
      exact hnot (List.mem_map_of_mem hp)
    rw [hstands] at hn
    exact hn rfl
  | _ => trivial

end Filling

/-- Substituting is spelling the segments with the numbers filled in. -/
theorem toList_substitute (t : Template) (numbers : List (String × Double)) :
    (t.substitute numbers).toList =
      Segment.spellAll (fun p => fill numbers (.placeholder p.toList)) t.segments := by
  rw [substitute, String.toList_ofList, Segment.spellAll]
  refine List.flatMap_congr fun seg _ => ?_
  cases seg with
  | plain c => rfl
  | placeholder name => rw [Segment.spell, String.toList_ofList]

/-- What a variable stands for stays the same when it is read again. -/
theorem same_standsFor (fresh : String → String) (numbers : List (String × Double)) (n : String) :
    (standsFor fresh numbers n).reread.same (standsFor fresh numbers n) = true := by
  rcases standsFor_cases fresh numbers n with h | ⟨x, h⟩
  · rw [h, Expr.reread]
    simp [Expr.same]
  · rw [h]
    exact (Expr.wellFormed_ofNumber x).same_reread

/-- If its values are resolved and the formula is accepted, a template can be applied. -/
theorem apply_of_parse {limits : Limits} {values : Fields} {e : Expr}
    (hresolve : t.resolve values = .ok numbers)
    (hparse : Formula.parse limits (t.substitute numbers) = .ok e) :
    t.apply limits values = .ok ⟨t.substitute numbers, t.code, t.name, numbers⟩ := by
  simp only [apply, hresolve, Except.mapError, bind, Except.bind, hparse]
  rfl

/-- Numbers in the place of placeholders are hygienic. If the formula of a loaded template is read
with a name between blanks for each placeholder, and the names are neither tokens of the formula nor
names of functions that it calls, then it is read with finite numbers in their place too, as the
same tree with the numbers in the place of the names' variables. -/
theorem apply_hygienic {place : String} {document : Value} {c : Catalogue}
    (hload : Catalogue.load place document = .ok c) (ht : t ∈ c) {values : Fields}
    (hresolve : t.resolve values = .ok numbers) (hfinite : ∀ q ∈ numbers, q.2.isFinite = true)
    (hletters : Segment.Unattached t.segments) (hfresh : t.Fresh fresh)
    {limits₀ limits : Limits} {e : Expr}
    (hparse : Formula.parse limits₀ (t.withNames fresh) = .ok e)
    (hcalls : e.Everywhere (Expr.Uncalled (· ∈ t.placeholders.map fresh)))
    (hlength : (t.substitute numbers).length ≤ limits.maxLength)
    (hdepth : (e.replace (standsFor fresh numbers)).depth ≤ limits.maxDepth) :
    ∃ e', Formula.parse limits (t.substitute numbers) = .ok e' ∧
      e'.same (e.replace (standsFor fresh numbers)) = true ∧
      t.apply limits values = .ok ⟨t.substitute numbers, t.code, t.name, numbers⟩ := by
  have hnames := mem_map_fst_iff hload ht hresolve
  obtain ⟨-, -, htree, -⟩ := Formula.parse_eq_ok_iff_tree.mp hparse
  obtain ⟨ts, hscan, hderives⟩ := Formula.tree_eq_ok_iff.mp htree
  have hfollows := follows hnames hfinite hfresh hletters (scan_eq_iff.mp hscan) hderives.separated
  obtain ⟨us, hcut, hreplaced⟩ := hfollows.exists_replaced 0
  rw [← toList_substitute] at hcut
  have hnumbers := hderives.replace hreplaced (uncalled hnames hcalls)
  have hsame := Expr.replace_same (same_standsFor fresh numbers) e
  have hblank : strip (t.substitute numbers).toList ≠ [] := by
    intro hnil
    obtain ⟨u, rest, hus, -⟩ := hnumbers.exists_cons
    rw [hcut.eq_nil_of_blank (strip_eq_nil_iff.mp hnil)] at hus
    cases hus
  have hread : Formula.parse limits (t.substitute numbers) =
      .ok (e.replace fun n => (standsFor fresh numbers n).reread) := by
    refine Formula.parse_eq_ok_iff_tree.mpr ⟨hblank, hlength,
      Formula.tree_eq_ok_iff.mpr ⟨us, scan_eq_iff.mpr hcut, hnumbers⟩, ?_⟩
    rwa [Expr.depth_eq_height, Expr.height_eq_of_same hsame, ← Expr.depth_eq_height]
  exact ⟨_, hread, hsame, apply_of_parse hresolve hread⟩

/-- The template has one placeholder, after a product sign. -/
theorem segments_scaled (default : Double) :
    (scaled default).segments = "base * ".toList.map .plain ++ [.placeholder "factor".toList] := by
  show Segment.cut 0 "base * \x7bfactor\x7d".toList = _
  decide

/-- The template has a name of its own for its placeholder. -/
theorem fresh_scaled (default : Double) : (scaled default).Fresh fun _ => "v" := by
  have hplaceholders : (scaled default).placeholders = ["factor"] := by
    rw [placeholders, segments_scaled]
    decide
  refine ⟨fun _ _ => by simp only [IsIdentifier]; decide, ?_, fun _ _ => ?_⟩
  · intro p hp q hq _
    rw [hplaceholders, List.mem_singleton] at hp hq
    rw [hp, hq]
  · rw [withBlanks, segments_scaled]
    decide

/-- With a name for its placeholder, the template's formula is a product of variables. -/
theorem parse_withNames_scaled (default : Double) :
    Formula.parse .standard ((scaled default).withNames fun _ => "v") =
      .ok (.binary .mul (.variable "base") (.variable "v")) := by
  have htext : ((scaled default).withNames fun _ => "v") = "base *  v " := by
    rw [withNames, segments_scaled]
    decide
  have hts : scan "base *  v ".toList =
      ⟨[⟨.name, ['b', 'a', 's', 'e'], 0⟩, ⟨.star, ['*'], 5⟩, ⟨.name, ['v'], 8⟩], none⟩ := by
    decide
  have hderives : Derives .multiplicative
      [⟨.name, ['b', 'a', 's', 'e'], 0⟩, ⟨.star, ['*'], 5⟩, ⟨.name, ['v'], 8⟩]
      (.binary .mul (.variable "base") (.variable "v")) :=
    .binary .mul (Derives.loosen (d := .atom) (.named rfl) (by decide))
      (Derives.loosen (d := .atom) (.named (t := ⟨.name, ['v'], 8⟩) rfl) (by decide))
  rw [htext]
  refine Formula.parse_eq_ok_iff_tree.mpr ⟨by decide, by decide,
    Formula.tree_eq_ok_iff.mpr ⟨_, hts, hderives.loosen (by decide)⟩, ?_⟩
  rw [Expr.depth_eq_height]
  decide

/-- A factor below zero is read as the negation of a literal. -/
theorem apply_scaled_hygienic :
    ∃ e, Formula.parse .standard ((scaled (.finite Finite.one.neg)).substitute
        [("factor", .finite Finite.one.neg)]) = .ok e ∧
      e.same (.binary .mul (.variable "base") (.unary .neg (.literal .one))) = true ∧
      (scaled (.finite Finite.one.neg)).apply .standard [] =
        .ok ⟨"base * (-1)", "scaled", "Scaled", [("factor", .finite Finite.one.neg)]⟩ := by
  have hload : Catalogue.load "t" (scaledDocument (.finite Finite.one.neg)) =
      .ok [scaled (.finite Finite.one.neg)] := by
    decide +kernel
  have htext : (scaled (.finite Finite.one.neg)).substitute [("factor", .finite Finite.one.neg)] =
      "base * (-1)" := by
    decide +kernel
  have hreplace : (Expr.binary .mul (.variable "base") (.variable "v")).replace
      (standsFor (fun _ => "v") [("factor", .finite Finite.one.neg)]) =
      .binary .mul (.variable "base") (.unary .neg (.literal .one)) := by
    have hneg : Finite.one.neg.ticks < 0 := Finite.ticks_neg_iff.mpr (by decide)
    have hv : standsFor (fun _ => "v") [("factor", .finite Finite.one.neg)] "v" =
        .unary .neg (.literal .one) := by
      rw [standsFor_fresh (p := "factor") rfl (by simp), Expr.ofNumber, if_pos hneg]
      rfl
    have hbase : standsFor (fun _ => "v") [("factor", .finite Finite.one.neg)] "base" =
        .variable "base" := standsFor_of_not_mem (by simp)
    rw [Expr.replace, Expr.replace, Expr.replace, hv, hbase]
  have hlength : ((scaled (.finite Finite.one.neg)).substitute
      [("factor", .finite Finite.one.neg)]).length ≤ Limits.standard.maxLength := by
    rw [htext]
    decide
  have hdepth : (Expr.binary .mul (.variable "base") (.unary .neg (.literal .one))).depth ≤
      Limits.standard.maxDepth := by
    rw [Expr.depth_eq_height]
    decide
  rw [← hreplace] at hdepth ⊢
  obtain ⟨e, hread, hsame, happly⟩ := apply_hygienic hload List.mem_cons_self (resolve_scaled _)
    (by simp [Double.isFinite]) (by decide) (fresh_scaled _) (parse_withNames_scaled _)
    (by simp [Expr.Uncalled]) hlength hdepth
  refine ⟨e, hread, hsame, ?_⟩
  rw [happly, htext]
  rfl

end Template

end PayrollFormula
