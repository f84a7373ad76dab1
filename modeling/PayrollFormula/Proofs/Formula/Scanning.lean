import PayrollFormula.Proofs.Formula.Lexemes

/-!
# Texts and their tokens

`Cut` says how a text is cut into tokens from some offset on: by skipping blanks and by taking the
lexeme in front. The scanner cuts a text into tokens up to its end exactly if it can be cut so
(`scan_eq_iff`).
-/

set_option autoImplicit false

namespace PayrollFormula

/-! ## Cutting a text into tokens -/

/-- How a text is cut into tokens from an offset on: blanks are skipped, and anything else has to
start with a lexeme. -/
inductive Cut : ℕ → List Char → List Token → Prop where
  | nil (start : ℕ) : Cut start [] []
  | space {start : ℕ} {c : Char} {cs : List Char} {ts : List Token} :
      isSpace c = true → Cut (start + 1) cs ts → Cut start (c :: cs) ts
  | lexeme {start : ℕ} (k : TokenKind) (chars : List Char) {rest : List Char} {ts : List Token} :
      lexeme? (chars ++ rest) = some (k, chars) → Cut (start + chars.length) rest ts →
      Cut start (chars ++ rest) (⟨k, chars, start⟩ :: ts)

/-- The characters of the token before are skipped. -/
theorem scanFrom_skip (chars rest : List Char) (start : ℕ) :
    scanFrom chars.length start (chars ++ rest) = scanFrom 0 (start + chars.length) rest := by
  induction chars generalizing start with
  | nil => rfl
  | cons c chars ih =>
    rw [List.length_cons, List.cons_append, scanFrom, ih, Nat.add_assoc, Nat.add_comm 1]

/-- A lexeme is scanned as a token, and the scan goes on after it. -/
theorem scanFrom_lexeme {start : ℕ} {k : TokenKind} {chars rest : List Char}
    (h : lexeme? (chars ++ rest) = some (k, chars)) :
    scanFrom 0 start (chars ++ rest) =
      ⟨⟨k, chars, start⟩ :: (scanFrom 0 (start + chars.length) rest).tokens,
        (scanFrom 0 (start + chars.length) rest).stop⟩ := by
  obtain ⟨c, tail, rfl⟩ := List.exists_cons_of_ne_nil (ne_nil_and_prefix_of_lexeme? h).1
  have hlater : scanFrom tail.length (start + 1) (tail ++ rest) =
      scanFrom 0 (start + (c :: tail).length) rest := by
    rw [scanFrom_skip, List.length_cons, Nat.add_assoc, Nat.add_comm 1]
  rw [List.cons_append] at h ⊢
  rw [scanFrom]
  simp only [isSpace_eq_false_of_lexeme? h, h, List.length_cons, Nat.add_sub_cancel, hlater]
  rfl

/-- A text that can be cut into tokens is scanned into them to its end. -/
theorem Cut.scanFrom_eq {start : ℕ} {cs : List Char} {ts : List Token} (h : Cut start cs ts) :
    scanFrom 0 start cs = ⟨ts, none⟩ := by
  induction h with
  | nil => rfl
  | space hspace _ ih => rw [scanFrom, if_pos hspace, ih]
  | lexeme k chars hlex _ ih => rw [scanFrom_lexeme hlex, ih]

/-- The induction over a scan: it is over at the end of the text or where neither a blank nor a
lexeme starts, and goes on after a blank and after a lexeme. -/
theorem scanFrom_induction {P : ℕ → List Char → Scan → Prop} (nil : ∀ start, P start [] ⟨[], none⟩)
    (stuck : ∀ start c cs, isSpace c = false → lexeme? (c :: cs) = none →
      P start (c :: cs) ⟨[], some (c, start)⟩)
    (space : ∀ start c cs s, isSpace c = true → P (start + 1) cs s → P start (c :: cs) s)
    (lexeme : ∀ start k chars rest ts stop, lexeme? (chars ++ rest) = some (k, chars) →
      P (start + chars.length) rest ⟨ts, stop⟩ →
        P start (chars ++ rest) ⟨⟨k, chars, start⟩ :: ts, stop⟩)
    (start : ℕ) (cs : List Char) : P start cs (scanFrom 0 start cs) := by
  -- The induction is on the length, since a lexeme may take several characters at once.
  induction hn : cs.length using Nat.strong_induction_on generalizing start cs with
  | _ n ih =>
    cases cs with
    | nil => exact nil start
    | cons c cs =>
      by_cases hspace : isSpace c = true
      · rw [scanFrom, if_pos hspace]
        exact space start c cs _ hspace
          (ih cs.length (by rw [← hn]; exact Nat.lt_succ_self _) (start + 1) cs rfl)
      · rw [Bool.not_eq_true] at hspace
        cases hlex : lexeme? (c :: cs) with
        | none =>
          have hscan : scanFrom 0 start (c :: cs) = ⟨[], some (c, start)⟩ := by
            simp [scanFrom, hspace, hlex]
          rw [hscan]
          exact stuck start c cs hspace hlex
        | some found =>
          obtain ⟨k, chars⟩ := found
          obtain ⟨hne, rest, hrest⟩ := ne_nil_and_prefix_of_lexeme? hlex
          rw [← hrest] at hlex hn ⊢
          have hshort : rest.length < n := by
            have hpos := List.length_pos_iff.mpr hne
            rw [← hn, List.length_append]
            omega
          rw [scanFrom_lexeme hlex]
          exact lexeme start k chars rest _ _ hlex (ih rest.length hshort _ rest rfl)

/-- A text that is scanned to its end is cut into the tokens. -/
theorem cut_of_scanFrom {start : ℕ} {cs : List Char} {ts : List Token}
    (h : scanFrom 0 start cs = ⟨ts, none⟩) : Cut start cs ts := by
  induction start, cs using scanFrom_induction generalizing ts with
  | nil start =>
    cases h
    exact .nil start
  | stuck => cases h
  | space start c cs s hspace ih => exact .space hspace (ih h)
  | lexeme start k chars rest ts stop hlex ih =>
    cases h
    exact .lexeme k chars hlex (ih rfl)

/-- The tokens of a text that is scanned to its end are those into which it can be cut. -/
theorem scan_eq_iff {cs : List Char} {ts : List Token} : scan cs = ⟨ts, none⟩ ↔ Cut 0 cs ts :=
  ⟨cut_of_scanFrom, Cut.scanFrom_eq⟩

/-- The empty text has no tokens. -/
theorem cut_nil_iff {start : ℕ} {ts : List Token} : Cut start [] ts ↔ ts = [] := by
  constructor
  · intro h
    have hscan := h.scanFrom_eq
    cases hscan
    rfl
  · rintro rfl
    exact .nil start

/-- A blank in front of a text makes no difference to its tokens but for their offsets. -/
theorem cut_space_iff {start : ℕ} {c : Char} {cs : List Char} {ts : List Token}
    (hspace : isSpace c = true) : Cut start (c :: cs) ts ↔ Cut (start + 1) cs ts := by
  constructor
  · intro h
    have hscan := h.scanFrom_eq
    rw [scanFrom, if_pos hspace] at hscan
    exact cut_of_scanFrom hscan
  · exact .space hspace

/-- The lexeme in front of a text is its first token. -/
theorem Cut.after_lexeme {start : ℕ} {k : TokenKind} {chars rest : List Char} {ts : List Token}
    (h : Cut start (chars ++ rest) ts) (hlex : lexeme? (chars ++ rest) = some (k, chars)) :
    ∃ us, ts = ⟨k, chars, start⟩ :: us ∧ Cut (start + chars.length) rest us := by
  have hscan := h.scanFrom_eq
  rw [scanFrom_lexeme hlex, Scan.mk.injEq] at hscan
  obtain ⟨rfl, hstop⟩ := hscan
  refine ⟨_, rfl, cut_of_scanFrom ?_⟩
  rw [← hstop]

/-- A text that does not start with a blank starts with a lexeme. -/
theorem Cut.exists_lexeme {start : ℕ} {c : Char} {cs : List Char} {ts : List Token}
    (h : Cut start (c :: cs) ts) (hspace : isSpace c = false) :
    ∃ k chars rest, c :: cs = chars ++ rest ∧ lexeme? (chars ++ rest) = some (k, chars) := by
  generalize htext : c :: cs = text at h
  cases h with
  | nil => cases htext
  | space hc =>
    cases htext
    rw [hspace] at hc
    cases hc
  | lexeme k chars hlex => exact ⟨k, chars, _, rfl, hlex⟩

/-- A text that can be cut into tokens starts with a visible ASCII character or a blank. -/
theorem Cut.not_wide {start : ℕ} {c : Char} {cs : List Char} {ts : List Token}
    (h : Cut start (c :: cs) ts) : c.toNat < 128 := by
  by_contra hwide
  generalize htext : c :: cs = text at h
  cases h with
  | nil => cases htext
  | space hspace =>
    cases htext
    simp only [isSpace, Bool.or_eq_true, decide_eq_true_eq] at hspace
    rcases hspace with (((rfl | rfl) | rfl) | rfl) | rfl <;> exact hwide (by decide)
  | lexeme k chars hlex =>
    rw [← htext, lexeme?_of_range (by omega)] at hlex
    cases hlex

/-- Where a text can be cut into tokens, a word ends where the characters of names stop. -/
theorem Cut.stops_isWordChar {start : ℕ} {cs : List Char} {ts : List Token} (h : Cut start cs ts)
    (hstop : Stops isNameChar cs) : Stops isWordChar cs := by
  intro c hc
  by_contra hword
  -- A character that continues the word would start no token.
  obtain ⟨cs, rfl⟩ := List.head?_eq_some_iff.mp hc
  have hwide := wide_of_isWordChar (by simpa using hword) (hstop c hc)
  have := h.not_wide
  omega

/-- Whether the names among some tokens name something. -/
def ProperNames (ts : List Token) : Prop := ∀ t ∈ ts, t.kind = .name → IsIdentifier t.chars

/-- The empty list of tokens has proper names only. -/
@[simp] theorem properNames_nil : ProperNames [] := by
  simp [ProperNames]

/-- Tokens have proper names if the first and the others do. -/
@[simp] theorem properNames_cons (t : Token) (ts : List Token) :
    ProperNames (t :: ts) ↔ (t.kind = .name → IsIdentifier t.chars) ∧ ProperNames ts := by
  simp [ProperNames]

/-- Tokens and others have proper names if both do. -/
@[simp] theorem properNames_append (ts us : List Token) :
    ProperNames (ts ++ us) ↔ ProperNames ts ∧ ProperNames us := by
  simp [ProperNames, or_imp, forall_and]

/-- The names among the tokens of a text that is cut to its end are no operators. -/
theorem Cut.properNames {start : ℕ} {cs : List Char} {ts : List Token} (h : Cut start cs ts) :
    ProperNames ts := by
  induction h with
  | nil => simp
  | space _ _ ih => exact ih
  | @lexeme _ k chars rest _ hlex hrest ih =>
    refine (properNames_cons _ _).mpr ⟨fun hkind => ?_, ih⟩
    obtain rfl : k = .name := hkind
    obtain ⟨hname, hstop, hword⟩ := isName_of_lexeme? hlex
    exact ⟨hname, hword.resolve_left fun hnot => hnot (hrest.stops_isWordChar hstop)⟩

/-- Nothing is left of a text without its blanks exactly if it has nothing else. -/
theorem strip_eq_nil_iff {cs : List Char} : strip cs = [] ↔ ∀ c ∈ cs, isBlank c = true := by
  unfold strip trimmed
  rw [List.reverse_eq_nil_iff, List.dropWhile_eq_nil_iff]
  constructor
  · intro h
    rw [← List.dropWhile_eq_nil_iff]
    by_contra hne
    have hhead := h _ (List.mem_reverse.mpr (List.head_mem hne))
    have hstop := List.head_dropWhile_not isBlank hne
    rw [hhead] at hstop
    cases hstop
  · intro h
    rw [List.dropWhile_eq_nil_iff.mpr h]
    simp

/-- A blank text has no tokens. -/
theorem Cut.eq_nil_of_blank {start : ℕ} {cs : List Char} {ts : List Token} (h : Cut start cs ts)
    (hblank : ∀ c ∈ cs, isBlank c = true) : ts = [] := by
  induction h with
  | nil => rfl
  | space _ _ ih => exact ih fun c hc => hblank c (List.mem_cons_of_mem _ hc)
  | lexeme k chars hlex _ _ =>
    obtain ⟨c, tail, rfl⟩ := List.exists_cons_of_ne_nil (ne_nil_and_prefix_of_lexeme? hlex).1
    rw [List.cons_append, lexeme?_of_range (range_of_isBlank (hblank c (by simp)))] at hlex
    cases hlex

/-- A text that is cut into tokens has no other characters than these and blanks. -/
theorem Cut.not_mem {start : ℕ} {cs : List Char} {ts : List Token} (h : Cut start cs ts) {c : Char}
    (hspace : isSpace c = false) (hname : isNameChar c = false) (hmark : c ∉ '.' :: symbolChars) :
    c ∉ cs := by
  induction h with
  | nil => exact List.not_mem_nil
  | space hd _ ih =>
    rw [List.mem_cons]
    rintro (rfl | hmem)
    · rw [hd] at hspace
      cases hspace
    · exact ih hmem
  | lexeme k chars hlex _ ih =>
    rw [List.mem_append]
    rintro (hmem | hmem)
    · exact (isLexeme_of_lexeme? hlex).not_mem hname hmark hmem
    · exact ih hmem

end PayrollFormula
