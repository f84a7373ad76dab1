import PayrollFormula.Proofs.Formula.Lexemes

/-!
# The patterns of tokens

`Matches` lists the patterns of the tokens one by one: numerals, names, the words that are operators,
signs, and the exclamation mark. Several of them may match in front of a text, with different lengths
or, for a name and a word, with the same. `Prefers` says which match is taken: the longest one, and
an operator rather than a name. The lexeme in front of a text is the preferred match
(`lexeme?_eq_some_iff`), and there is none only where no pattern matches (`lexeme?_eq_none_iff`).
-/

set_option autoImplicit false

namespace PayrollFormula

namespace Token

/-- The words that are operators. -/
def words : List (TokenKind × List Char) :=
  [(.and, ['a', 'n', 'd']), (.or, ['o', 'r']), (.not, ['n', 'o', 't'])]

/-- The signs that are tokens whatever comes after them. -/
def signs : List (TokenKind × List Char) :=
  [(.and, ['&', '&']), (.or, ['|', '|']), (.equal, ['=', '=']), (.unequal, ['!', '=']),
    (.atMost, ['<', '=']), (.atLeast, ['>', '=']), (.less, ['<']), (.greater, ['>']), (.plus, ['+']),
    (.minus, ['-']), (.star, ['*']), (.slash, ['/']), (.percent, ['%']), (.leftParen, ['(']),
    (.rightParen, [')']), (.comma, [',']), (.question, ['?']), (.colon, [':'])]

/-- The patterns of the tokens: which characters are a token of a kind in front of a text. -/
inductive Matches : TokenKind → List Char → List Char → Prop where
  | number {p : Numeral.Parts} (rest : List Char) : p.Proper → Matches .number p.text rest
  | name {chars : List Char} (rest : List Char) : isName chars = true → Matches .name chars rest
  /-- A word in any letter case that ends at the end of a word. -/
  | word {k : TokenKind} {word chars rest : List Char} : (k, word) ∈ words →
      chars.map lowerLetter = word → Stops isWordChar rest → Matches k chars rest
  | sign {k : TokenKind} {chars : List Char} (rest : List Char) : (k, chars) ∈ signs →
      Matches k chars rest
  /-- An exclamation mark that is no part of an inequality. -/
  | exclamation {rest : List Char} : Stops (· = '=') rest → Matches .not ['!'] rest

/-- Whether a match gives way to another at the same place: it is shorter, or it has the same
characters and is of the same kind or a name. -/
def YieldsTo (k : TokenKind) (chars : List Char) (k' : TokenKind) (chars' : List Char) : Prop :=
  chars.length < chars'.length ∨ chars = chars' ∧ (k = k' ∨ k = .name)

/-- Of two matches that give way to each other there is one. -/
theorem YieldsTo.antisymm {k k' : TokenKind} {chars chars' : List Char}
    (h : YieldsTo k chars k' chars') (h' : YieldsTo k' chars' k chars) :
    k = k' ∧ chars = chars' := by
  unfold YieldsTo at h h'
  rcases h with hlt | ⟨rfl, hkind⟩
  · rcases h' with hlt' | ⟨heq, -⟩
    · omega
    · rw [heq] at hlt
      omega
  · refine ⟨?_, rfl⟩
    rcases h' with hlt | ⟨-, hkind'⟩
    · omega
    · rcases hkind with rfl | rfl
      · rfl
      · exact (hkind'.elim id id).symm

/-- Whether a pattern matches in front of a text and any match there gives way to it. -/
structure Prefers (k : TokenKind) (chars rest : List Char) : Prop where
  isMatch : Matches k chars rest
  best : ∀ k' chars' rest', chars' ++ rest' = chars ++ rest → Matches k' chars' rest' →
    YieldsTo k' chars' k chars

end Token

section Patterns

open Token

variable {k : TokenKind} {chars rest : List Char}

/-! ## Words -/

/-- What starts a name in lower case starts one as it is. -/
theorem isNameStart_of_lowerLetter {c : Char} (h : isNameStart (lowerLetter c) = true) :
    isNameStart c = true := by
  unfold lowerLetter at h
  split_ifs at h with hupper
  · simp [isNameStart, hupper]
  · exact h

/-- A text that is a word of letters in lower case has the form of a name. -/
theorem isName_of_map_lowerLetter (hne : chars ≠ [])
    (h : ∀ c ∈ chars.map lowerLetter, isNameStart c = true) : isName chars = true := by
  obtain ⟨c, cs, rfl⟩ := List.exists_cons_of_ne_nil hne
  have hstart (d : Char) (hd : d ∈ c :: cs) : isNameStart d = true :=
    isNameStart_of_lowerLetter (h _ (List.mem_map_of_mem hd))
  refine isName_cons.mpr ⟨hstart c List.mem_cons_self, fun d hd => ?_⟩
  rw [isNameChar, hstart d (List.mem_cons_of_mem c hd), Bool.true_or]

/-- A keyword in any letter case has the shape of a name. -/
theorem isName_of_words {word : List Char} (hword : (k, word) ∈ words)
    (hchars : chars.map lowerLetter = word) : isName chars = true := by
  have hletters : word ≠ [] ∧ word.all isNameStart = true := by
    simp only [words, List.mem_cons, List.not_mem_nil, or_false, Prod.mk.injEq] at hword
    rcases hword with ⟨-, rfl⟩ | ⟨-, rfl⟩ | ⟨-, rfl⟩ <;> decide
  subst hchars
  exact isName_of_map_lowerLetter (by simpa using hletters.1) (List.all_eq_true.mp hletters.2)

/-- The words that are operators are of their kinds where they end at the end of a word. -/
theorem wordKind_of_words {word : List Char} (hword : (k, word) ∈ words)
    (hchars : chars.map lowerLetter = word) (hstop : Stops isWordChar rest) :
    wordKind chars rest = k := by
  have hhead : rest.head?.any isWordChar = false := by
    cases rest with
    | nil => rfl
    | cons c rest => simpa using hstop
  unfold wordKind
  rw [hhead, hchars]
  simp only [words, List.mem_cons, List.not_mem_nil, or_false, Prod.mk.injEq] at hword
  rcases hword with ⟨rfl, rfl⟩ | ⟨rfl, rfl⟩ | ⟨rfl, rfl⟩ <;> rfl

/-- A word is of the kind of a pattern that matches. -/
theorem matches_wordKind (hname : isName chars = true) (rest : List Char) :
    Matches (wordKind chars rest) chars rest := by
  by_cases hkind : wordKind chars rest = .name
  · rw [hkind]
    exact .name rest hname
  · have hstop : Stops isWordChar rest := by
      by_contra hnot
      exact hkind (wordKind_eq_name_iff.mpr (.inl hnot))
    have hkeyword := isKeyword_of_wordKind hkind
    simp only [isKeyword, Bool.or_eq_true, decide_eq_true_eq] at hkeyword
    have hword : ∃ k, (k, chars.map lowerLetter) ∈ words := by
      rcases hkeyword with (hword | hword) | hword
      · exact ⟨.and, by rw [hword]; decide⟩
      · exact ⟨.or, by rw [hword]; decide⟩
      · exact ⟨.not, by rw [hword]; decide⟩
    obtain ⟨k, hk⟩ := hword
    rw [wordKind_of_words hk rfl hstop]
    exact .word hk rfl hstop

/-! ## Signs -/

/-- A symbol is a sign or an exclamation mark. -/
theorem matches_of_symbol? {cs : List Char} {n : ℕ} (h : symbol? cs = some (k, n)) :
    Matches k (cs.take n) (cs.drop n) := by
  unfold symbol? at h
  split at h <;> cases h
  case h_7 tail hnot =>
    refine .exclamation fun c hc => ?_
    by_contra hequal
    obtain ⟨after, hafter⟩ := List.head?_eq_some_iff.mp hc
    simp_all
  all_goals
    refine .sign _ ?_
    simp [signs]

/-- A symbol of one character is one in front of any text that does not start with an equals sign. -/
theorem symbol?_of_single {c : Char} (h : symbol? [c] = some (k, 1)) (hrest : rest.head? ≠ some '=') :
    symbol? (c :: rest) = some (k, 1) :=
  symbol?_single h fun hequal => absurd hequal hrest

/-- Any sign in front of a text gives way to the symbol there. -/
theorem symbol?_of_signs (h : (k, chars) ∈ signs) (rest : List Char) :
    ∃ k' n, symbol? (chars ++ rest) = some (k', n) ∧
      (chars.length < n ∨ chars.length = n ∧ k = k') := by
  simp only [signs, List.mem_cons, List.not_mem_nil, or_false, Prod.mk.injEq] at h
  rcases h with ⟨rfl, rfl⟩ | ⟨rfl, rfl⟩ | ⟨rfl, rfl⟩ | ⟨rfl, rfl⟩ | ⟨rfl, rfl⟩ | ⟨rfl, rfl⟩ |
    ⟨rfl, rfl⟩ | ⟨rfl, rfl⟩ | ⟨rfl, rfl⟩ | ⟨rfl, rfl⟩ | ⟨rfl, rfl⟩ | ⟨rfl, rfl⟩ | ⟨rfl, rfl⟩ |
    ⟨rfl, rfl⟩ | ⟨rfl, rfl⟩ | ⟨rfl, rfl⟩ | ⟨rfl, rfl⟩ | ⟨rfl, rfl⟩ <;>
    try exact ⟨_, _, rfl, .inr ⟨rfl, rfl⟩⟩
  -- Left are the two signs that an equals sign continues.
  all_goals
    by_cases hequal : rest.head? = some '='
    · obtain ⟨after, rfl⟩ := List.head?_eq_some_iff.mp hequal
      exact ⟨_, _, rfl, .inl (by decide)⟩
    · exact ⟨_, _, symbol?_of_single rfl hequal, .inr ⟨rfl, rfl⟩⟩

/-! ## The preferred match -/

/-- A symbol at the front of a text is its lexeme. -/
theorem lexeme?_of_symbol? {cs : List Char} {n : ℕ} (h : symbol? cs = some (k, n)) :
    lexeme? cs = some (k, cs.take n) := by
  obtain ⟨-, -, hle, -⟩ := symbol?_cases h
  have hlexeme := @lexeme?_symbol (cs.take n) (cs.drop n) k
  rw [List.take_append_drop, List.length_take_of_le hle] at hlexeme
  exact hlexeme h

/-- A sign gives way to the lexeme if it gives way to the symbol. -/
theorem exists_lexeme?_of_symbol? {k' : TokenKind} {n : ℕ}
    (h : symbol? (chars ++ rest) = some (k', n))
    (hyields : chars.length < n ∨ chars.length = n ∧ k = k') :
    ∃ k' chars', lexeme? (chars ++ rest) = some (k', chars') ∧ YieldsTo k chars k' chars' := by
  obtain ⟨-, -, hle, -⟩ := symbol?_cases h
  refine ⟨_, _, lexeme?_of_symbol? h, ?_⟩
  rcases hyields with hlt | ⟨rfl, rfl⟩
  · exact .inl (by rwa [List.length_take_of_le hle])
  · exact .inr ⟨List.take_left.symm, .inl rfl⟩

/-- A text that starts with a name starts with a word, which may be longer. -/
theorem lexeme?_of_isName (hname : isName chars = true) (rest : List Char) :
    ∃ more after, rest = more ++ after ∧
      lexeme? (chars ++ rest) = some (wordKind (chars ++ more) after, chars ++ more) := by
  refine ⟨rest.takeWhile isNameChar, rest.dropWhile isNameChar,
    List.takeWhile_append_dropWhile.symm, ?_⟩
  have hlong : isName (chars ++ rest.takeWhile isNameChar) = true := by
    cases chars with
    | nil => cases hname
    | cons c cs =>
      obtain ⟨hc, hcs⟩ := isName_cons.mp hname
      rw [List.cons_append, isName_cons]
      refine ⟨hc, fun d hd => ?_⟩
      rcases List.mem_append.mp hd with hd | hd
      · exact hcs d hd
      · exact List.mem_takeWhile_imp hd
  have hstop : Stops isNameChar (rest.dropWhile isNameChar) := by
    intro c hc
    have hhead := List.head?_dropWhile_not isNameChar rest
    rwa [hc] at hhead
  have hlexeme := lexeme?_word hlong hstop
  rwa [List.append_assoc, List.takeWhile_append_dropWhile] at hlexeme

/-- At the front of a text that starts with a numeral there is a numeral at least as long. -/
theorem lexeme?_of_numeral {p : Numeral.Parts} (hp : p.Proper) (rest : List Char) :
    ∃ q : Numeral.Parts, p.text.length ≤ q.text.length ∧
      lexeme? (p.text ++ rest) = some (.number, q.text) := by
  obtain ⟨q, after, hsplit, hlong⟩ := hp.exists_split rest
  obtain ⟨c, cs, htext, hc⟩ := hp.exists_cons
  have hstart : isNameStart c = false := by
    rcases hc with hc | rfl
    · exact isNameStart_eq_false_of_isDigit hc
    · decide
  have hhead : (p.text ++ rest).head?.any isNameStart = false := by
    simp [htext, hstart]
  refine ⟨q, hlong, ?_⟩
  unfold lexeme?
  rw [hhead, hsplit]
  rfl

/-- A word gives way to the lexeme if it is a name or of the kind that the word has there. -/
theorem exists_lexeme?_of_isName (hname : isName chars = true)
    (hkind : k = .name ∨ wordKind chars rest = k) :
    ∃ k' chars', lexeme? (chars ++ rest) = some (k', chars') ∧ YieldsTo k chars k' chars' := by
  obtain ⟨more, after, rfl, hlexeme⟩ := lexeme?_of_isName hname rest
  refine ⟨_, _, hlexeme, ?_⟩
  cases more with
  | nil =>
    rw [List.append_nil]
    exact .inr ⟨rfl, hkind.symm.imp_left Eq.symm⟩
  | cons c more => exact .inl (by simp)

/-- Any match gives way to the lexeme at its place. -/
theorem Token.Matches.exists_lexeme? (h : Matches k chars rest) :
    ∃ k' chars', lexeme? (chars ++ rest) = some (k', chars') ∧ YieldsTo k chars k' chars' := by
  cases h with
  | name _ hname => exact exists_lexeme?_of_isName hname (.inl rfl)
  | word hword hchars hstop =>
    exact exists_lexeme?_of_isName (isName_of_words hword hchars)
      (.inr (wordKind_of_words hword hchars hstop))
  | @number p _ hp =>
    obtain ⟨q, hlong, hlexeme⟩ := lexeme?_of_numeral hp rest
    refine ⟨_, _, hlexeme, ?_⟩
    obtain ⟨after, happend, -⟩ := exists_isLexeme hlexeme
    rcases hlong.lt_or_eq with hlt | heq
    · exact .inl hlt
    · exact .inr ⟨(List.append_inj happend heq).1, .inl rfl⟩
  | sign _ hsign =>
    obtain ⟨k', n, hsymbol, hyields⟩ := symbol?_of_signs hsign rest
    exact exists_lexeme?_of_symbol? hsymbol hyields
  | exclamation hstop =>
    have hequal : rest.head? ≠ some '=' := fun h => by simpa using hstop '=' h
    exact exists_lexeme?_of_symbol? (symbol?_of_single rfl hequal) (.inr ⟨rfl, rfl⟩)

/-- A lexeme matches the pattern of its kind. -/
theorem IsLexeme.matches (h : IsLexeme k chars rest) : Matches k chars rest := by
  cases h with
  | word hname _ => exact matches_wordKind hname rest
  | number hp => exact .number rest hp
  | symbol hsymbol =>
    have hmatch := matches_of_symbol? hsymbol
    rwa [List.take_left, List.drop_left] at hmatch

/-- The lexeme in front of a text is the preferred match. -/
theorem lexeme?_eq_some_iff : lexeme? (chars ++ rest) = some (k, chars) ↔ Prefers k chars rest := by
  constructor
  · intro h
    refine ⟨(isLexeme_of_lexeme? h).matches, fun k' chars' rest' happend hmatch => ?_⟩
    obtain ⟨k₁, chars₁, hlexeme, hyields⟩ := hmatch.exists_lexeme?
    rw [happend, h] at hlexeme
    cases hlexeme
    exact hyields
  · intro h
    -- The lexeme and the match give way to each other.
    obtain ⟨k', chars', hlexeme, hyields⟩ := h.isMatch.exists_lexeme?
    obtain ⟨rest', happend, hlex⟩ := exists_isLexeme hlexeme
    have hyields' := h.best k' chars' rest' happend.symm hlex.matches
    obtain ⟨rfl, rfl⟩ := hyields.antisymm hyields'
    exact hlexeme

/-- There is no lexeme in front of a text exactly if no pattern matches there. -/
theorem lexeme?_eq_none_iff {cs : List Char} :
    lexeme? cs = none ↔ ∀ k chars rest, cs = chars ++ rest → ¬ Matches k chars rest := by
  constructor
  · rintro h k chars rest rfl hmatch
    obtain ⟨k', chars', hlexeme, -⟩ := hmatch.exists_lexeme?
    rw [h] at hlexeme
    cases hlexeme
  · intro h
    by_contra hsome
    obtain ⟨⟨k, chars⟩, hlexeme⟩ := Option.ne_none_iff_exists'.mp hsome
    obtain ⟨rest, happend, hlex⟩ := exists_isLexeme hlexeme
    exact h k chars rest happend hlex.matches

end Patterns

end PayrollFormula
