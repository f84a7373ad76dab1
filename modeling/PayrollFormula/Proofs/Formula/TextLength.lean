import PayrollFormula.Proofs.Formula.Patterns
import PayrollFormula.Proofs.Formula.Respelling
import PayrollFormula.Proofs.Number.Length

/-!
# How long a canonical text is

The canonical text of a formula is read as the formula again if it is not too long, and refused for
its length otherwise (`parse_text_of_parse`). It may be longer than the text that the formula was
read from, since blanks come in and operators and numbers are spelled out, but no token becomes more
than four times as long (`length_text_le`).
-/

set_option autoImplicit false

namespace PayrollFormula

open Grammar

/-! ## Tokens in canonical spelling -/

/-- The operator for conjunctions has two characters at least. -/
theorem Token.Matches.two_le_length {chars rest : List Char} (h : Token.Matches .and chars rest) :
    2 ≤ chars.length := by
  cases h with
  | word hword hchars =>
    have hlength : chars.length = (chars.map lowerLetter).length := (List.length_map _).symm
    simp [Token.words] at hword
    simp [hlength, hchars, hword]
  | sign _ hsign =>
    simp [Token.signs] at hsign
    simp [hsign]

/-- A numeral in the range of doubles is at most four times as long in canonical spelling. -/
theorem IsLexeme.length_spelling_number {chars rest : List Char} {start : ℕ}
    (h : IsLexeme .number chars rest)
    (hrange : Token.isOutOfRange ⟨.number, chars, start⟩ = false) :
    (Token.spelling ⟨.number, chars, start⟩).length ≤ 4 * chars.length := by
  obtain ⟨p, rfl, hp⟩ : ∃ p : Numeral.Parts, p.text = chars ∧ p.Proper := by
    cases h.matches with
    | number _ hp => exact ⟨_, rfl, hp⟩
    | word hword => simp [Token.words] at hword
    | sign _ hsign => simp [Token.signs] at hsign
  obtain ⟨x, hx⟩ : ∃ x, Token.number? ⟨.number, p.text, start⟩ = some x := by
    simpa [Token.isOutOfRange, Option.isSome_iff_exists] using hrange
  have hspelling : Token.spelling ⟨.number, p.text, start⟩ = x.formulaText.toList := by
    unfold Token.spelling Token.number
    rw [hx]
    rfl
  rw [hspelling]
  exact Finite.length_formulaText_le (negative_eq_false_of_number? hx) hp (rank_of_number? hp hx)

/-- A token is at most four times as long in canonical spelling. -/
theorem IsLexeme.length_spelling_le {t : Token} {rest : List Char}
    (h : IsLexeme t.kind t.chars rest) (hrange : t.isOutOfRange = false) :
    t.spelling.length ≤ 4 * t.chars.length := by
  obtain ⟨k, chars, start⟩ := t
  cases k with
  | number => exact h.length_spelling_number hrange
  | name => exact Nat.le_mul_of_pos_left _ (by decide)
  | and =>
    have htwo : 2 ≤ chars.length := h.matches.two_le_length
    exact (show 5 ≤ 4 * chars.length by omega)
  | _ =>
    -- No other operator or mark has more than four characters with its blanks.
    have hpos : 1 ≤ chars.length := List.length_pos_iff.mpr h.ne_nil
    exact le_trans (Nat.le_of_ble_eq_true rfl) (Nat.mul_le_mul_left 4 hpos)

/-- Tokens in canonical spelling are at most four times as long as the text that they are cut
from. -/
theorem Cut.length_spellings_le {start : ℕ} {cs : List Char} {ts : List Token} (h : Cut start cs ts)
    (hrange : InRange ts) : (ts.flatMap Token.spelling).length ≤ 4 * cs.length := by
  induction h with
  | nil => exact Nat.zero_le _
  | space _ _ ih =>
    have hle := ih hrange
    rw [List.length_cons]
    omega
  | lexeme k chars hlex _ ih =>
    obtain ⟨ht, hts⟩ := (inRange_cons _ _).mp hrange
    have hfirst := (isLexeme_of_lexeme? hlex).length_spelling_le ht
    have hle := ih hts
    rw [List.flatMap_cons, List.length_append, List.length_append]
    simp only at hfirst
    omega

/-! ## Arguments without blanks -/

/-- Arguments need no blank between them. -/
theorem Reads.closeArguments {cs ds : List Char} {level : ℕ} {a : Expr} {args : List Expr}
    (h : Reads cs level a) (hlevel : 1 ≤ level) (hargs : ReadsArguments ds args) :
    ReadsArguments (cs ++ ',' :: ds) (a :: args) := by
  intro start rest us hrest hcut
  have hend : Cut (start + cs.length + 1 + ds.length) rest us := by
    simpa [Nat.add_assoc, Nat.add_comm, Nat.add_left_comm] using hcut
  obtain ⟨vs, hvs, harguments⟩ := hargs _ rest us hrest hend
  have hcomma : Cut (start + cs.length) ([','] ++ _) _ := .lexeme .comma [','] rfl hvs
  obtain ⟨ts, hts, hderives⟩ := h start _ _ (by simp; decide) hcomma
  refine ⟨ts ++ ⟨.comma, [','], start + cs.length⟩ :: vs, by simpa using hts, ?_⟩
  exact .more (hderives .ternary hlevel) rfl harguments

/-- A variable and some more of the same, with commas but without blanks between them. -/
def crowdedArguments : ℕ → List Char
  | 0 => ['a']
  | n + 1 => 'a' :: ',' :: crowdedArguments n

/-- A call with a variable and some more of the same as arguments, without blanks. -/
def crowdedCall (n : ℕ) : String := String.ofList ('F' :: '(' :: (crowdedArguments n ++ [')']))

/-- The tree of a call with a variable and some more of the same as arguments. -/
def repeatedCall (n : ℕ) : Expr := .call "F" (List.replicate (n + 1) (.variable "a"))

/-- The crowded arguments are so many times the variable. -/
theorem readsArguments_crowded (n : ℕ) :
    ReadsArguments (crowdedArguments n) (List.replicate (n + 1) (.variable "a")) := by
  have hidentifier : IsIdentifier "a".toList := ⟨rfl, rfl⟩
  have hname : Reads ['a'] 9 (.variable "a") := reads_variable hidentifier
  induction n with
  | zero => exact hname.lastArgument (by decide)
  | succ n ih => exact hname.closeArguments (by decide) ih

/-- Crowded, each further argument takes two characters. -/
theorem length_crowdedArguments (n : ℕ) : (crowdedArguments n).length = 2 * n + 1 := by
  induction n with
  | zero => rfl
  | succ n ih =>
    rw [crowdedArguments, List.length_cons, List.length_cons, ih]
    omega

/-- In canonical text, each further argument takes three characters. -/
theorem length_argChars_replicate (n : ℕ) :
    (Expr.argChars (List.replicate (n + 1) (.variable "a"))).length = 3 * n + 1 := by
  induction n with
  | zero => rfl
  | succ n ih =>
    rw [List.replicate_succ, List.replicate_succ, Expr.argChars, ← List.replicate_succ]
    · simp only [List.length_append, List.length_cons, ih, Expr.chars]
      have hlength : "a".toList.length = 1 := rfl
      omega
    · simp

/-- Variables have height one. -/
theorem greatestHeight_replicate (n : ℕ) :
    Expr.greatestHeight (List.replicate n (.variable "a")) ≤ 1 := by
  refine Expr.greatestHeight_le fun a ha => ?_
  rw [List.eq_of_mem_replicate ha]
  exact le_refl 1

namespace Formula

/-- The canonical text of a formula that was read is read as the formula again if it is not too
long, and refused for its length otherwise. -/
theorem parse_text_of_parse {limits : Limits} {text : String} {e : Expr}
    (h : parse limits text = .ok e) :
    parse limits e.text =
      if e.text.length ≤ limits.maxLength then .ok e else .error (.tooLong limits.maxLength) := by
  have hplain := plain_of_parse h
  have hnamed := (Expr.wellFormed_of_plain hplain).named
  have hself := Expr.reread_eq_self hplain
  obtain ⟨-, -, -, hdepth⟩ := parse_eq_ok_iff_tree.mp h
  split_ifs with hlength
  · have hread : parse limits e.text = .ok e.reread :=
      parse_text hnamed (by rwa [hself]) hlength
    rwa [hself] at hread
  · have hlong : limits.maxLength < e.text.toList.length := by
      rw [String.length_toList]
      omega
    unfold parse
    simp only [List.isEmpty_iff]
    rw [if_neg (tree_text hnamed).1, if_pos hlong]

/-- The crowded call is read within limits that its length and depth keep. -/
theorem parse_crowdedCall {limits : Limits} {n : ℕ} (hlength : 2 * n + 4 ≤ limits.maxLength)
    (hdepth : 2 ≤ limits.maxDepth) : parse limits (crowdedCall n) = .ok (repeatedCall n) := by
  have hname : IsIdentifier "F".toList := ⟨rfl, rfl⟩
  have hreads := (readsArguments_crowded n).call hname
  obtain ⟨hblank, htree⟩ := tree_of_reads hreads (by decide)
  have hchars : (crowdedCall n).toList = "F".toList ++ '(' :: (crowdedArguments n ++ [')']) :=
    String.toList_ofList
  have hcall : Expr.callNamed "F" (List.replicate (n + 1) (.variable "a")) = repeatedCall n := rfl
  rw [parse_eq_ok_iff_tree, hchars]
  refine ⟨hblank, ?_, hcall ▸ htree, ?_⟩
  · rw [← String.length_toList, hchars]
    simp [length_crowdedArguments]
    omega
  · rw [Expr.depth_eq_height, repeatedCall, Expr.height]
    have hargs := greatestHeight_replicate (n + 1)
    omega

/-- The canonical text of the call takes three characters for each argument. -/
theorem length_text_repeatedCall (n : ℕ) : (repeatedCall n).text.length = 3 * n + 4 := by
  have hchars : (repeatedCall n).text.toList = (repeatedCall n).chars := String.toList_ofList
  have hname : "F".toList.length = 1 := rfl
  rw [← String.length_toList, hchars, repeatedCall, Expr.chars]
  simp only [List.length_append, List.length_cons, List.length_nil, length_argChars_replicate]
  omega

/-- A formula that is read from a text within the standard limits need not be read from its
canonical text, which is longer than they allow. -/
theorem parse_text_of_crowdedCall :
    parse .standard (crowdedCall 1365) = .ok (repeatedCall 1365) ∧
      parse .standard (repeatedCall 1365).text = .error (.tooLong 4096) := by
  have hparse : parse .standard (crowdedCall 1365) = .ok (repeatedCall 1365) :=
    parse_crowdedCall (by decide) (by decide)
  have hlong : ¬ (repeatedCall 1365).text.length ≤ Limits.standard.maxLength := by
    rw [length_text_repeatedCall]
    decide
  refine ⟨hparse, ?_⟩
  rw [parse_text_of_parse hparse, if_neg hlong]
  rfl

/-- The canonical text of a formula is at most four times as long as any text that is read as the
formula. -/
theorem length_text_le {limits : Limits} {text : String} {e : Expr}
    (h : parse limits text = .ok e) : e.text.length ≤ 4 * text.length := by
  obtain ⟨ts, hcut, hrange, hmade⟩ := exists_madeOf h
  rw [← String.length_toList, ← String.length_toList]
  calc e.text.toList.length = (e.text.toList.map upperLetter).length := (List.length_map _).symm
    _ ≤ (respelled ts).length := hmade.length_le
    _ = (ts.flatMap Token.spelling).length := List.length_map _
    _ ≤ 4 * text.toList.length := hcut.length_spellings_le hrange

/-- A formula that was read is read from its canonical text, under the same limits, exactly if this
text is not longer than they allow, and it is at most four times as long as the text that was
read. -/
theorem parse_text_iff_length {limits : Limits} {text : String} {e : Expr}
    (h : parse limits text = .ok e) :
    (parse limits e.text = .ok e ↔ e.text.length ≤ limits.maxLength) ∧
      e.text.length ≤ 4 * text.length := by
  refine ⟨?_, length_text_le h⟩
  rw [parse_text_of_parse h]
  split_ifs with hlength <;> simp [hlength]

/-- The canonical text of a sum is read under a limit that is as long as the text, and not only
under one of four times the length of its shortest text. -/
theorem parse_text_iff_length_sum :
    parse ⟨5, 64, by decide, by decide, by decide⟩
      (Expr.binary .add (.variable "a") (.variable "b")).text =
        .ok (.binary .add (.variable "a") (.variable "b")) ∧
      (Expr.binary .add (.variable "a") (.variable "b")).text.length ≤ 4 * "a+b".length := by
  have hparse : parse ⟨5, 64, by decide, by decide, by decide⟩ "a+b" =
      .ok (.binary .add (.variable "a") (.variable "b")) := by
    rw [parse_eq_ok_iff_tree, Expr.depth_eq_height]
    exact ⟨by decide, by decide, by rfl, by decide⟩
  obtain ⟨hread, hlength⟩ := parse_text_iff_length hparse
  exact ⟨hread.mpr (by decide), hlength⟩

end Formula

end PayrollFormula
