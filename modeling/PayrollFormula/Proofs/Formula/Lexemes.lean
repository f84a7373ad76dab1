import PayrollFormula.Formula.Token
import PayrollFormula.Proofs.Number.Numeral
import PayrollFormula.Proofs.Text.Names

/-!
# Lexemes and the text after them

A lexeme is a word, a numeral or a symbol (`IsLexeme`), and each of these is one in front of any
text that does not continue it. So the text after a lexeme matters only by its first character
(`IsLexeme.congr`), and blanks in front of an operand matter only after a word
(`IsLexeme.before_operand`).
-/

set_option autoImplicit false

namespace PayrollFormula

/-! ## Characters -/

/-- Only the visible ASCII characters start names, numerals and symbols. -/
theorem not_starts_of_range {c : Char} (h : c.toNat ≤ 32 ∨ 127 ≤ c.toNat) :
    isNameStart c = false ∧ isDigit c = false ∧ c ≠ '.' ∧ ∀ cs, symbol? (c :: cs) = none := by
  unfold Char.toNat at h
  have ha : ('a' : Char).val.toNat = 97 := rfl
  have hz : ('z' : Char).val.toNat = 122 := rfl
  have hA : ('A' : Char).val.toNat = 65 := rfl
  have hZ : ('Z' : Char).val.toNat = 90 := rfl
  have h0 : ('0' : Char).val.toNat = 48 := rfl
  have h9 : ('9' : Char).val.toNat = 57 := rfl
  refine ⟨?_, ?_, ?_, fun cs => ?_⟩
  · by_contra hstart
    simp only [isNameStart, Char.le_def, UInt32.le_iff_toNat_le, Bool.not_eq_false,
      Bool.or_eq_true, Bool.and_eq_true, decide_eq_true_eq] at hstart
    rcases hstart with (hs | hs) | rfl
    · omega
    · omega
    · exact absurd h (by decide)
  · by_contra hdigit
    simp only [isDigit, Char.le_def, UInt32.le_iff_toNat_le, Bool.not_eq_false, Bool.and_eq_true,
      decide_eq_true_eq] at hdigit
    omega
  · rintro rfl
    exact absurd h (by decide)
  · unfold symbol?
    split <;> simp_all

/-- Blanks lie outside the printed characters of ASCII. -/
theorem range_of_isBlank {c : Char} (h : isBlank c = true) : c.toNat ≤ 32 ∨ 127 ≤ c.toNat := by
  simp only [isBlank, Bool.or_eq_true, Bool.and_eq_true, decide_eq_true_eq] at h
  omega

/-- What may stand between tokens is blank. -/
theorem isBlank_of_isSpace {c : Char} (h : isSpace c = true) : isBlank c = true := by
  simp only [isSpace, Bool.or_eq_true, decide_eq_true_eq] at h
  rcases h with (((rfl | rfl) | rfl) | rfl) | rfl <;> decide

/-! ## Symbols -/

section Symbols

variable {cs chars rest rest' : List Char} {k : TokenKind} {n : ℕ}

/-- The characters of symbols. -/
def symbolChars : List Char :=
  ['&', '|', '=', '!', '<', '>', '+', '-', '*', '/', '%', '(', ')', ',', '?', ':']

/-- A symbol has one or two characters, all of them among those of symbols, and starts neither a
name nor a numeral. -/
theorem symbol?_cases (h : symbol? cs = some (k, n)) :
    0 < n ∧ n ≤ 2 ∧ n ≤ cs.length ∧ (∀ c ∈ cs.take n, c ∈ symbolChars) ∧
      ∃ c tail, cs = c :: tail ∧ isNameStart c = false ∧ Numeral.continues c = false := by
  unfold symbol? at h
  split at h <;> cases h <;>
    exact ⟨by decide, by decide, by simp, by simp [symbolChars], _, _, rfl, by decide, by decide⟩

/-- No symbol is a name. -/
theorem symbol?_ne_name (h : symbol? cs = some (k, n)) : k ≠ .name := by
  unfold symbol? at h
  split at h <;> cases h <;> decide

/-- A symbol of one character stays that symbol before another text, if no equals sign joins it. -/
theorem symbol?_single {c : Char} (h : symbol? (c :: rest) = some (k, 1))
    (hequal : rest'.head? = some '=' → rest.head? = some '=') :
    symbol? (c :: rest') = some (k, 1) := by
  unfold symbol? at h
  split at h <;> cases h <;> rename_i heq <;> cases heq <;> try rfl
  -- Left are the three symbols that an equals sign continues, where none follows.
  all_goals
    cases rest' with
    | nil => rfl
    | cons d tail =>
      have hd : d ≠ '=' := by
        rintro rfl
        obtain ⟨after, hafter⟩ := List.head?_eq_some_iff.mp (hequal rfl)
        simp_all
      simp [symbol?, hd]

/-- A symbol of two characters stays that symbol before any other text. -/
theorem symbol?_double {c d : Char} (h : symbol? (c :: d :: rest) = some (k, 2)) :
    symbol? (c :: d :: rest') = some (k, 2) := by
  unfold symbol? at h
  split at h <;> cases h <;> rename_i heq <;> cases heq <;> rfl

/-- A symbol does not depend on the text after it, unless that starts with an equals sign. -/
theorem symbol?_congr (h : symbol? (chars ++ rest) = some (k, chars.length))
    (hequal : rest'.head? = some '=' → rest.head? = some '=') :
    symbol? (chars ++ rest') = some (k, chars.length) := by
  obtain ⟨hpos, hle, -⟩ := symbol?_cases h
  match chars, h with
  | [], _ => simp at hpos
  | [c], h => exact symbol?_single h hequal
  | [c, d], h => exact symbol?_double h
  | _ :: _ :: _ :: _, _ => simp at hle

end Symbols

/-! ## Lexemes -/

/-- Whether a character continues a word or a numeral. -/
def continuesToken (c : Char) : Bool := isWordChar c || Numeral.continues c

/-- A word is a name if the text after it continues it, or if it is no operator. -/
theorem wordKind_eq_name_iff {word rest : List Char} :
    wordKind word rest = .name ↔ ¬ Stops isWordChar rest ∨ isKeyword word = false := by
  have hhead : rest.head?.any isWordChar = false ↔ Stops isWordChar rest := by
    cases rest <;> simp
  unfold wordKind isKeyword
  rw [← hhead]
  generalize word.map lowerLetter = w
  split_ifs <;> simp_all

/-- A word that is no name is a keyword. -/
theorem isKeyword_of_wordKind {word rest : List Char} (h : wordKind word rest ≠ .name) :
    isKeyword word = true := by
  by_contra hnot
  rw [Bool.not_eq_true] at hnot
  exact h (wordKind_eq_name_iff.mpr (.inr hnot))

/-- A lexeme in front of a text: a word that ends where the characters of names stop, a numeral, or
a symbol. -/
inductive IsLexeme : TokenKind → List Char → List Char → Prop where
  | word {chars rest : List Char} : isName chars = true → Stops isNameChar rest →
      IsLexeme (wordKind chars rest) chars rest
  | number {p : Numeral.Parts} {rest : List Char} : p.Proper → IsLexeme .number p.text rest
  | symbol {k : TokenKind} {chars rest : List Char} :
      symbol? (chars ++ rest) = some (k, chars.length) → IsLexeme k chars rest

section Lexemes

variable {chars rest rest' : List Char} {k : TokenKind}

/-- The characters of a name up to the first other one are a lexeme. -/
theorem lexeme?_word (hname : isName chars = true) (hstop : Stops isNameChar rest) :
    lexeme? (chars ++ rest) = some (wordKind chars rest, chars) := by
  cases chars with
  | nil => cases hname
  | cons c cs =>
    have hall : ∀ d ∈ c :: cs, isNameChar d = true := fun d hd => isNameChar_of_mem hname hd
    unfold lexeme?
    rw [takeWhile_append_stops hall hstop, dropWhile_append_stops hall hstop]
    simp [(isName_cons.mp hname).1]

/-- An identifier before the end of a word is the lexeme of a name. -/
theorem lexeme?_name (hchars : IsIdentifier chars) (hrest : Stops isWordChar rest) :
    lexeme? (chars ++ rest) = some (.name, chars) := by
  obtain ⟨hname, hword⟩ := hchars
  have hstop : Stops isNameChar rest := hrest.mono fun d hd => by
    by_contra h
    rw [isWordChar_of_isNameChar (by simpa using h)] at hd
    cases hd
  rw [lexeme?_word hname hstop, wordKind_eq_name_iff.mpr (.inr hword)]

/-- A numeral that is not continued is the lexeme of a number. -/
theorem lexeme?_number {p : Numeral.Parts} (hp : p.Proper) {rest : List Char}
    (hrest : Stops Numeral.continues rest) :
    lexeme? (p.text ++ rest) = some (.number, p.text) := by
  have hsplit := hp.split_text_append hrest
  obtain ⟨c, cs, htext, hc⟩ := hp.exists_cons
  have hstart : isNameStart c = false := by
    rcases hc with hc | rfl
    · exact isNameStart_eq_false_of_isDigit hc
    · decide
  have hhead : (p.text ++ rest).head?.any isNameStart = false := by
    simp [htext, hstart]
  unfold lexeme?
  rw [hhead, hsplit]
  rfl

/-- A symbol is a lexeme. -/
theorem lexeme?_symbol (h : symbol? (chars ++ rest) = some (k, chars.length)) :
    lexeme? (chars ++ rest) = some (k, chars) := by
  obtain ⟨-, -, -, -, c, tail, hcs, hstart, hcontinues⟩ := symbol?_cases h
  have hdigit : isDigit c = false ∧ c ≠ '.' := by
    simp only [Numeral.continues, Bool.or_eq_false_iff, decide_eq_false_iff_not] at hcontinues
    exact ⟨hcontinues.1.1.1, hcontinues.1.1.2⟩
  have hsplit : Numeral.split (chars ++ rest) = none := by
    simp [hcs, Numeral.split, Numeral.splitPoint, hdigit]
  have hhead : (chars ++ rest).head?.any isNameStart = false := by
    simp [hcs, hstart]
  unfold lexeme?
  rw [hhead, hsplit, h]
  simp

/-- A lexeme is found in front of a text, unless it is a numeral that the text continues. -/
theorem IsLexeme.lexeme?_eq (h : IsLexeme k chars rest)
    (hnumber : k = .number → Stops Numeral.continues rest) :
    lexeme? (chars ++ rest) = some (k, chars) := by
  cases h with
  | word hname hstop => exact lexeme?_word hname hstop
  | number hp => exact lexeme?_number hp (hnumber rfl)
  | symbol hsymbol => exact lexeme?_symbol hsymbol

/-- What is found in front of a text is a lexeme. -/
theorem exists_isLexeme {cs : List Char} (h : lexeme? cs = some (k, chars)) :
    ∃ rest, cs = chars ++ rest ∧ IsLexeme k chars rest := by
  unfold lexeme? at h
  split_ifs at h with hstart
  · cases h
    refine ⟨_, List.takeWhile_append_dropWhile.symm, .word ?_ ?_⟩
    · cases cs with
      | nil => simp at hstart
      | cons c cs =>
        have hc : isNameChar c = true := by simp_all [isNameChar]
        rw [List.takeWhile_cons_of_pos hc, isName_cons]
        exact ⟨by simpa using hstart, fun d hd => List.mem_takeWhile_imp hd⟩
    · intro c hc
      have hhead := List.head?_dropWhile_not isNameChar cs
      rwa [hc] at hhead
  · cases hsplit : Numeral.split cs with
    | some split =>
      obtain ⟨p, rest⟩ := split
      obtain ⟨rfl, hp⟩ := Numeral.eq_append_of_split hsplit
      rw [hsplit] at h
      cases h
      exact ⟨rest, rfl, .number hp⟩
    | none =>
      rw [hsplit] at h
      obtain ⟨⟨k', n⟩, hsymbol, heq⟩ := Option.map_eq_some_iff.mp h
      cases heq
      obtain ⟨-, -, hle, -⟩ := symbol?_cases hsymbol
      refine ⟨cs.drop n, (List.take_append_drop n cs).symm, .symbol ?_⟩
      rw [List.take_append_drop, hsymbol, List.length_take_of_le hle]

/-- A lexeme that is found at the front of a text is one before the rest. -/
theorem isLexeme_of_lexeme? (h : lexeme? (chars ++ rest) = some (k, chars)) :
    IsLexeme k chars rest := by
  obtain ⟨rest', happend, hlexeme⟩ := exists_isLexeme h
  rwa [List.append_cancel_left happend]

/-- No lexeme is empty. -/
theorem IsLexeme.ne_nil (h : IsLexeme k chars rest) : chars ≠ [] := by
  intro hnil
  cases h with
  | word hname =>
    rw [hnil] at hname
    cases hname
  | number hp =>
    obtain ⟨c, cs, hcons, -⟩ := hp.exists_cons
    cases hcons.symm.trans hnil
  | symbol hsymbol =>
    rw [hnil] at hsymbol
    exact absurd (symbol?_cases hsymbol).1 (lt_irrefl 0)

/-- A lexeme that is found is not empty and stands at the front of the text. -/
theorem ne_nil_and_prefix_of_lexeme? {cs : List Char} (h : lexeme? cs = some (k, chars)) :
    chars ≠ [] ∧ chars <+: cs := by
  obtain ⟨rest, rfl, hlexeme⟩ := exists_isLexeme h
  exact ⟨hlexeme.ne_nil, List.prefix_append _ _⟩

/-- No lexeme starts with a character outside the printed ones of ASCII. -/
theorem lexeme?_of_range {c : Char} (h : c.toNat ≤ 32 ∨ 127 ≤ c.toNat) (cs : List Char) :
    lexeme? (c :: cs) = none := by
  obtain ⟨hstart, hdigit, hpoint, hsymbol⟩ := not_starts_of_range h
  have hsplit : Numeral.split (c :: cs) = none := by
    simp [Numeral.split, Numeral.splitPoint, hdigit, hpoint]
  unfold lexeme?
  simp [hstart, hsplit, hsymbol]

/-- No lexeme starts with a character that may stand between tokens. -/
theorem isSpace_eq_false_of_lexeme? {c : Char} {cs chars : List Char} {k : TokenKind}
    (h : lexeme? (c :: cs) = some (k, chars)) : isSpace c = false := by
  by_contra hspace
  rw [Bool.not_eq_false] at hspace
  rw [lexeme?_of_range (range_of_isBlank (isBlank_of_isSpace hspace))] at h
  cases h

/-- A name has the form of one and ends where the characters of names stop, and it is no operator
unless the text after it continues the word. -/
theorem isName_of_lexeme? (h : lexeme? (chars ++ rest) = some (.name, chars)) :
    isName chars = true ∧ Stops isNameChar rest ∧
      (¬ Stops isWordChar rest ∨ isKeyword chars = false) := by
  generalize hk : TokenKind.name = k at h
  cases isLexeme_of_lexeme? h with
  | word hname hstop => exact ⟨hname, hstop, wordKind_eq_name_iff.mp hk.symm⟩
  | number => cases hk
  | symbol hsymbol => exact absurd hk.symm (symbol?_ne_name hsymbol)

/-! ## Changing the text after a lexeme -/

/-- A lexeme is made of the characters of names, of symbols and the point. -/
theorem IsLexeme.not_mem {c : Char} (h : IsLexeme k chars rest) (hname : isNameChar c = false)
    (hmark : c ∉ '.' :: symbolChars) : c ∉ chars := by
  intro hmem
  cases h with
  | word hchars =>
    rw [isNameChar_of_mem hchars hmem] at hname
    cases hname
  | number hp =>
    refine hp.forall_mem_text (P := (· ≠ c)) ?_ ?_ c hmem rfl
    · rintro d hd rfl
      simp [isNameChar, hd] at hname
    · rintro d hd rfl
      simp only [List.mem_cons, List.not_mem_nil, or_false] at hd
      rcases hd with rfl | rfl | rfl | rfl | rfl
      · exact hmark (by decide)
      · cases hname
      · cases hname
      · exact hmark (by decide)
      · exact hmark (by decide)
  | symbol hsymbol =>
    obtain ⟨-, -, -, hall, -⟩ := symbol?_cases hsymbol
    rw [List.take_left] at hall
    exact hmark (List.mem_cons_of_mem _ (hall c hmem))

/-- There is no blank inside a lexeme. -/
theorem IsLexeme.blank_not_mem (h : IsLexeme k chars rest) : ' ' ∉ chars :=
  h.not_mem (by decide) (by decide)

/-- The text after a lexeme matters only by its first character. -/
theorem IsLexeme.congr (h : IsLexeme k chars rest) (hhead : rest'.head? = rest.head?) :
    IsLexeme k chars rest' := by
  cases h with
  | word hname hstop =>
    have hkind : wordKind chars rest = wordKind chars rest' := by
      unfold wordKind
      rw [hhead]
    rw [hkind]
    exact .word hname fun c hc => hstop c (hhead ▸ hc)
  | number hp => exact .number hp
  | symbol hsymbol => exact .symbol (symbol?_congr hsymbol fun hequal => hhead ▸ hequal)

/-- The last letters of the keywords are letters in either case. -/
theorem isAlpha_of_lowerLetter {c : Char} (h : lowerLetter c ∈ ['d', 'r', 't']) :
    c.isAlpha = true := by
  unfold lowerLetter at h
  split_ifs at h with hupper
  · have hisUpper : c.isUpper = true := decide_eq_true hupper
    show (c.isUpper || c.isLower) = true
    rw [hisUpper, Bool.true_or]
  · simp only [List.mem_cons, List.not_mem_nil, or_false] at h
    rcases h with rfl | rfl | rfl <;> decide

/-- A word that is an operator ends with a letter. -/
theorem isAlpha_of_wordKind (h : wordKind chars rest ≠ .name) :
    ∃ c ∈ chars.getLast?, c.isAlpha = true := by
  have hkeyword := isKeyword_of_wordKind h
  have hlast : ∃ d ∈ ['d', 'r', 't'], (chars.map lowerLetter).getLast? = some d := by
    simp only [isKeyword, Bool.or_eq_true, decide_eq_true_eq] at hkeyword
    rcases hkeyword with (hword | hword) | hword
    · exact ⟨'d', by simp, by rw [hword]; rfl⟩
    · exact ⟨'r', by simp, by rw [hword]; rfl⟩
    · exact ⟨'t', by simp, by rw [hword]; rfl⟩
  obtain ⟨d, hd, hchars⟩ := hlast
  rw [List.getLast?_map] at hchars
  obtain ⟨c, hc, rfl⟩ := Option.map_eq_some_iff.mp hchars
  exact ⟨c, hc, isAlpha_of_lowerLetter hd⟩

/-- A lexeme that is no operand and ends with no letter stays one in front of any text that does
not start with an equals sign. -/
theorem IsLexeme.before_operand (h : IsLexeme k chars rest) (hnumber : k ≠ .number)
    (hname : k ≠ .name) (hlast : ∀ c ∈ chars.getLast?, c.isAlpha = false)
    (hrest' : rest'.head? ≠ some '=') : IsLexeme k chars rest' := by
  cases h with
  | word =>
    obtain ⟨c, hc, halpha⟩ := isAlpha_of_wordKind hname
    rw [hlast c hc] at halpha
    cases halpha
  | number => exact absurd rfl hnumber
  | symbol hsymbol => exact .symbol (symbol?_congr hsymbol fun h => absurd h hrest')

end Lexemes

end PayrollFormula
