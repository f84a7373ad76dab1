import PayrollFormula.Proofs.Formula.Accepted
import PayrollFormula.Proofs.Formula.Offence
import PayrollFormula.Proofs.Formula.Parentheses
import PayrollFormula.Proofs.Formula.Viable

/-!
# How texts are refused for their syntax

A text has a syntax error exactly if it is not cut into tokens to its end or if these are no
sentence (`exists_treeOf_iff`). If its parentheses match, the error points at the leftmost offence:
the first token that no formula continues with, else the first character at which no token starts,
else the end of the text (`parse_points_at_leftmost`). If its tokens reach to its end, the error is
that of unmatched parentheses exactly if the parentheses of the text do not match
(`parse_unbalanced_iff`).
-/

set_option autoImplicit false

namespace PayrollFormula

namespace Parsing

open Grammar

/-- A scanned text has a tree exactly if it is cut to its end into tokens that are a sentence. -/
theorem exists_treeOf_iff {s : Scan} :
    (∃ e, treeOf s = .ok e) ↔ s.stop = none ∧ Sentence (s.tokens.map Token.kind) := by
  rw [sentence_iff]
  unfold treeOf
  cases hrun : run initial s.tokens with
  | error t => simp
  | ok state =>
    cases s.stop with
    | some stop => simp
    | none => cases hfin : finish state <;> simp [hfin]

/-- The token after which tokens are no beginning of a formula any more is the offence. -/
theorem treeOf_of_not_viable {s : Scan} {before after : List Token} {t : Token}
    (hts : s.tokens = before ++ t :: after) (h : Viable before) (ht : ¬ Viable (before ++ [t])) :
    treeOf s = .error (.token t) := by
  unfold treeOf
  rw [hts, run_eq_error_of_not_viable h ht]

/-- If all tokens are the beginning of a formula, the offence is where scanning stopped, or the end.
-/
theorem treeOf_of_viable {s : Scan} (h : Viable s.tokens) {offence : Offence}
    (he : treeOf s = .error offence) :
    offence = s.stop.elim .ending fun stop => .character stop.1 stop.2 := by
  obtain ⟨state, hrun⟩ := exists_run_iff_viable.mpr h
  simp only [treeOf, hrun] at he
  cases hstop : s.stop with
  | some stop =>
    rw [hstop] at he
    cases he
    rfl
  | none =>
    rw [hstop] at he
    cases hfin : finish state with
    | none =>
      rw [hfin] at he
      cases he
      rfl
    | some e =>
      rw [hfin] at he
      cases he

end Parsing

namespace ParseError

/-- Whether a text is refused for a character or for the order of its tokens, and not for its type,
its length, its depth or the size of a number in it. -/
def IsSyntactic : ParseError → Prop
  | .unexpectedCharacter _ _ | .unbalanced _ | .unexpectedEnd _ | .unexpectedToken _ => True
  | _ => False

/-- Texts that differ in their first three characters differ, whatever follows in one of them. -/
theorem append_ne_of_take {a b : String} (h : a.toList.take 3 ≠ b.toList.take 3)
    (hlength : 3 ≤ a.toList.length) (rest : String) : a ++ rest ≠ b := by
  rintro rfl
  rw [String.toList_append, List.take_append_of_le_length hlength] at h
  exact h rfl

/-- Only unmatched parentheses are worded so. -/
theorem message_eq_unbalanced_iff {err : ParseError} :
    err.message = "Unbalanced parentheses" ↔ ∃ p, err = .unbalanced p := by
  have hlength (limit : ℕ) : (tooLong limit).message =
      "Formula exceeds maximum length of " ++ (toString limit ++ " characters") :=
    String.append_assoc ..
  have hdepth (depth limit : ℕ) : (tooDeep depth limit).message =
      "Formula nesting depth " ++ (toString depth ++ (" exceeds maximum of " ++ toString limit)) := by
    rw [← String.append_assoc, ← String.append_assoc]
    rfl
  constructor
  · intro h
    cases err with
    | unbalanced p => exact ⟨p, rfl⟩
    | blank => exact absurd h (by decide)
    | unexpectedEnd length =>
      have hmessage : (unexpectedEnd length).message = "Unexpected end of formula" := rfl
      exact absurd (hmessage.symm.trans h) (by decide)
    | notText typeName => exact absurd h (append_ne_of_take (by decide) (by decide) _)
    | unexpectedCharacter c p => exact absurd h (append_ne_of_take (by decide) (by decide) _)
    | unexpectedToken t => exact absurd h (append_ne_of_take (by decide) (by decide) _)
    | outOfRange t => exact absurd h (append_ne_of_take (by decide) (by decide) _)
    | tooLong limit =>
      exact absurd ((hlength limit).symm.trans h) (append_ne_of_take (by decide) (by decide) _)
    | tooDeep depth limit =>
      exact absurd ((hdepth depth limit).symm.trans h)
        (append_ne_of_take (by decide) (by decide) _)
  · rintro ⟨p, rfl⟩
    rfl

end ParseError

namespace Formula

open Grammar Parsing

variable {limits : Limits} {text : String} {err : ParseError}

/-- What an offence is reported as is a syntax error. -/
theorem isSyntactic_errorOf (cs : List Char) (ts : List Token) (offence : Offence) :
    (errorOf cs ts offence).IsSyntactic := by
  cases offence with
  | character => exact trivial
  | token | ending =>
    unfold errorOf
    simp only
    split_ifs <;> exact trivial

/-- The syntax errors of a text are those of its scan. -/
theorem tree_eq_error_iff {cs : List Char} (hs : err.IsSyntactic) :
    tree cs = .error err ↔
      ∃ offence, treeOf (scan cs) = .error offence ∧ err = errorOf cs (scan cs).tokens offence := by
  unfold tree
  simp only
  cases treeOf (scan cs) with
  | error offence => simp [eq_comm]
  | ok e =>
    cases (scan cs).tokens.find? (·.isOutOfRange) with
    | none => simp
    | some t =>
      simp only [Except.error.injEq, reduceCtorEq, false_and, exists_false, iff_false]
      rintro rfl
      exact hs

/-- Blankness and length aside, the syntax errors of a text are those of its tree. -/
theorem parse_eq_error_iff (hblank : strip text.toList ≠ [])
    (hlength : text.length ≤ limits.maxLength) (hs : err.IsSyntactic) :
    parse limits text = .error err ↔ tree text.toList = .error err := by
  have hshort : ¬ limits.maxLength < text.toList.length := by
    rw [String.length_toList]
    exact not_lt.mpr hlength
  unfold parse
  simp only [List.isEmpty_iff, hblank, hshort, if_false]
  cases tree text.toList with
  | error err' => rfl
  | ok e =>
    simp only [reduceCtorEq, iff_false]
    split_ifs
    · simp only [Except.error.injEq]
      rintro rfl
      exact hs
    · simp

/-- A text that is neither blank nor too long is refused for its syntax exactly if it is not cut to
its end into tokens that are a sentence. -/
theorem exists_syntax_error_iff (hblank : strip text.toList ≠ [])
    (hlength : text.length ≤ limits.maxLength) :
    (∃ err, parse limits text = .error err ∧ err.IsSyntactic) ↔
      ¬ ((scan text.toList).stop = none ∧
        Sentence ((scan text.toList).tokens.map Token.kind)) := by
  rw [← exists_treeOf_iff]
  constructor
  · rintro ⟨err, hparse, hs⟩ ⟨e, he⟩
    obtain ⟨offence, htree, -⟩ :=
      (tree_eq_error_iff hs).mp ((parse_eq_error_iff hblank hlength hs).mp hparse)
    rw [he] at htree
    cases htree
  · intro hnone
    cases htree : treeOf (scan text.toList) with
    | ok e => exact absurd ⟨e, htree⟩ hnone
    | error offence =>
      have hs := isSyntactic_errorOf text.toList (scan text.toList).tokens offence
      exact ⟨_, (parse_eq_error_iff hblank hlength hs).mpr
        ((tree_eq_error_iff hs).mpr ⟨offence, htree, rfl⟩), hs⟩

/-! ## The leftmost offence -/

/-- If the parentheses of a text match, an offence is reported as what it is. -/
theorem errorOf_of_matched {cs : List Char} (h : Matched cs) (ts : List Token)
    (offence : Offence) :
    errorOf cs ts offence = match offence with
      | .character c p => .unexpectedCharacter c p
      | .token t => .unexpectedToken t
      | .ending => .unexpectedEnd cs.length := by
  have hbalanced := balanced_iff.mpr h
  cases offence <;> simp [errorOf, hbalanced]

/-- A text that is neither blank nor too long and whose parentheses match has a syntax error exactly
if it is not cut to its end into tokens that are a sentence. The error is the first token that no
formula continues with; if there is none, the first character at which no token starts; and if there
is none either, the end of the text. -/
theorem parse_points_at_leftmost (hblank : strip text.toList ≠ [])
    (hlength : text.length ≤ limits.maxLength) (hmatched : Matched text.toList) :
    ((∃ err, parse limits text = .error err ∧ err.IsSyntactic) ↔
      ¬ ((scan text.toList).stop = none ∧
        Sentence ((scan text.toList).tokens.map Token.kind))) ∧
    ∀ err, parse limits text = .error err → err.IsSyntactic →
      (∀ before t after, (scan text.toList).tokens = before ++ t :: after → Viable before →
        ¬ Viable (before ++ [t]) → err = .unexpectedToken t) ∧
      (Viable (scan text.toList).tokens →
        (∀ c p, (scan text.toList).stop = some (c, p) → err = .unexpectedCharacter c p) ∧
        ((scan text.toList).stop = none → err = .unexpectedEnd text.length)) := by
  refine ⟨exists_syntax_error_iff hblank hlength, fun err hparse hs => ?_⟩
  obtain ⟨offence, htree, rfl⟩ :=
    (tree_eq_error_iff hs).mp ((parse_eq_error_iff hblank hlength hs).mp hparse)
  rw [errorOf_of_matched hmatched]
  constructor
  · intro before t after hts hbefore ht
    rw [treeOf_of_not_viable hts hbefore ht] at htree
    cases htree
    rfl
  · intro hviable
    have hoffence := treeOf_of_viable hviable htree
    constructor
    · intro c p hstop
      rw [hoffence, hstop]
      rfl
    · intro hstop
      rw [hoffence, hstop, ← String.length_toList]
      rfl

/-- The second of two commas is reported, and not the character after it that starts no token. -/
theorem parse_points_at_second_comma :
    parse .standard "f(1, , $)" = .error (.unexpectedToken ⟨.comma, [','], 5⟩) := by
  have hscan : scan "f(1, , $)".toList = ⟨[⟨.name, ['f'], 0⟩, ⟨.leftParen, ['('], 1⟩,
      ⟨.number, ['1'], 2⟩, ⟨.comma, [','], 3⟩, ⟨.comma, [','], 5⟩], some ('$', 7)⟩ := by
    decide
  have hmatched : Matched "f(1, , $)".toList := balanced_iff.mp (by decide)
  have hblank : strip "f(1, , $)".toList ≠ [] := by decide
  have hlength : "f(1, , $)".length ≤ Limits.standard.maxLength := by decide
  obtain ⟨hexists, hpoints⟩ := parse_points_at_leftmost hblank hlength hmatched
  rw [hscan] at hexists hpoints
  obtain ⟨err, hparse, hs⟩ := hexists.mpr (fun h => by cases h.1)
  have hbefore : Viable [⟨.name, ['f'], 0⟩, ⟨.leftParen, ['('], 1⟩, ⟨.number, ['1'], 2⟩,
      ⟨.comma, [','], 3⟩] := exists_run_iff_viable.mp ⟨_, rfl⟩
  have hcomma : ¬ Viable ([⟨.name, ['f'], 0⟩, ⟨.leftParen, ['('], 1⟩, ⟨.number, ['1'], 2⟩,
      ⟨.comma, [','], 3⟩] ++ [⟨.comma, [','], 5⟩]) := by
    intro h
    obtain ⟨s, hrun⟩ := exists_run_iff_viable.mpr h
    cases hrun
  rw [hparse, (hpoints err hparse hs).1 _ _ [] rfl hbefore hcomma]

/-! ## Unmatched parentheses -/

/-- What is read has matching parentheses. -/
theorem matched_of_parse {e : Expr} (h : parse limits text = .ok e) : Matched text.toList := by
  obtain ⟨-, -, htree, -⟩ := parse_eq_ok_iff_tree.mp h
  obtain ⟨ts, hscan, hts⟩ := tree_eq_ok_iff.mp htree
  exact .of_sentence hscan ⟨ts, e, rfl, hts⟩

/-- A text that is not too long and is cut into tokens to its end is refused for unmatched
parentheses exactly if its parentheses do not match. No text with unmatched parentheses is read, and
none with matching ones is refused for that. -/
theorem parse_unbalanced_iff :
    (∀ (limits : Limits) (text : String) (ts : List Token), text.length ≤ limits.maxLength →
      tokens text.toList = .ok ts →
      ((∃ err, parse limits text = .error err ∧ err.message = "Unbalanced parentheses") ↔
        ¬ Matched text.toList)) ∧
    ∀ (limits : Limits) (text : String), (∃ e, parse limits text = .ok e) → Matched text.toList := by
  constructor
  · intro limits text ts hlength htokens
    obtain ⟨hblank, hscan⟩ := tokens_eq_ok_iff.mp htokens
    constructor
    · rintro ⟨err, hparse, hmessage⟩ hmatched
      obtain ⟨p, rfl⟩ := ParseError.message_eq_unbalanced_iff.mp hmessage
      have hs : (ParseError.unbalanced p).IsSyntactic := trivial
      obtain ⟨offence, -, herr⟩ :=
        (tree_eq_error_iff hs).mp ((parse_eq_error_iff hblank hlength hs).mp hparse)
      rw [errorOf_of_matched hmatched] at herr
      cases offence <;> cases herr
    · intro hmatched
      -- The tokens are no sentence, so there is an error, and no character is at fault.
      have hno : ¬ ((scan text.toList).stop = none ∧
          Sentence ((scan text.toList).tokens.map Token.kind)) := by
        rw [hscan]
        exact fun h => hmatched (.of_sentence hscan h.2)
      obtain ⟨err, hparse, hs⟩ := (exists_syntax_error_iff hblank hlength).mpr hno
      obtain ⟨offence, htree, rfl⟩ :=
        (tree_eq_error_iff hs).mp ((parse_eq_error_iff hblank hlength hs).mp hparse)
      refine ⟨_, hparse, ParseError.message_eq_unbalanced_iff.mpr ?_⟩
      have hbalanced : balanced text.toList = false := by
        rw [← Bool.not_eq_true, balanced_iff]
        exact hmatched
      obtain ⟨t, -, rfl⟩ | ⟨c, p, hstop, rfl⟩ | rfl := treeOf_eq_error_cases htree
      · exact ⟨t.start, by simp [errorOf, hbalanced]⟩
      · rw [hscan] at hstop
        cases hstop
      · exact ⟨_, by simp [errorOf, hbalanced]; rfl⟩
  · rintro limits text ⟨e, h⟩
    exact matched_of_parse h

/-- A parenthesis that is closed before it is opened, in a text with as many of both. -/
theorem parse_unbalanced_closed_first :
    tokens "a) + (b".toList = .ok [⟨.name, ['a'], 0⟩, ⟨.rightParen, [')'], 1⟩, ⟨.plus, ['+'], 3⟩,
      ⟨.leftParen, ['('], 5⟩, ⟨.name, ['b'], 6⟩] ∧
    ∃ err, parse .standard "a) + (b" = .error err ∧ err.message = "Unbalanced parentheses" := by
  have htokens : tokens "a) + (b".toList = .ok [⟨.name, ['a'], 0⟩, ⟨.rightParen, [')'], 1⟩,
      ⟨.plus, ['+'], 3⟩, ⟨.leftParen, ['('], 5⟩, ⟨.name, ['b'], 6⟩] := by
    decide
  have hunmatched : ¬ Matched "a) + (b".toList := by
    rw [← balanced_iff]
    decide
  exact ⟨htokens, (parse_unbalanced_iff.1 .standard _ _ (by decide) htokens).mpr hunmatched⟩

end Formula

end PayrollFormula
