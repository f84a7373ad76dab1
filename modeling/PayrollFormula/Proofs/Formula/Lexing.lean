import PayrollFormula.Proofs.Formula.Accepted
import PayrollFormula.Proofs.Formula.Patterns
import PayrollFormula.Proofs.Formula.Scanning

/-!
# Tokens and what stands between them

`Lexed` says which tokens stand in a text between two offsets: they follow one another, each is the
match that is preferred at its place, and any character outside of them is a blank. A text has these
tokens up to its end, or up to the first offset at which neither a blank nor a token starts, where
the scan stops (`scan_eq_iff_lexed`). The texts of the tokens with one blank between any two are read
as the same tokens again (`tokens_lossless`).
-/

set_option autoImplicit false

namespace PayrollFormula

/-- Whether some tokens are those of a text between two offsets. -/
structure Lexed (cs : List Char) (start : ℕ) (ts : List Token) (stop : ℕ) : Prop where
  bounds : start ≤ stop ∧ stop ≤ cs.length
  /-- Each token is the preferred one among those that match at its offset. -/
  reads : ∀ t ∈ ts, ∃ rest, cs.drop t.start = t.chars ++ rest ∧ Token.Prefers t.kind t.chars rest
  nonempty : ∀ t ∈ ts, t.chars ≠ []
  within : ∀ t ∈ ts, start ≤ t.start ∧ t.start + t.chars.length ≤ stop
  ordered : ts.Pairwise fun t u => t.start + t.chars.length ≤ u.start
  /-- Only blanks stand between the tokens. -/
  between : ∀ i c, start ≤ i → i < stop → cs[i]? = some c →
    isSpace c = true ∨ ∃ t ∈ ts, t.start ≤ i ∧ i < t.start + t.chars.length

/-- Whether neither a blank nor a token starts at an offset of a text. -/
def Blocked (cs : List Char) (p : ℕ) : Prop :=
  ∀ c, cs[p]? = some c → isSpace c = false ∧
    ∀ k chars rest, cs.drop p = chars ++ rest → ¬ Token.Matches k chars rest

section Lexing

variable {cs rest : List Char} {start stop : ℕ} {ts : List Token}

/-- A text from an offset on starts with the character there. -/
theorem drop_eq_cons {c : Char} (h : cs[start]? = some c) :
    cs.drop start = c :: cs.drop (start + 1) := by
  obtain ⟨hlt, rfl⟩ := List.getElem?_eq_some_iff.mp h
  exact List.drop_eq_getElem_cons hlt

/-- The character with which a text starts from an offset on is the one there. -/
theorem getElem?_of_drop_eq_cons {c : Char} (h : cs.drop start = c :: rest) :
    cs[start]? = some c := by
  rw [← List.head?_drop, h, List.head?_cons]

/-- Behind a part of a text there is the rest. -/
theorem drop_add_length {chars : List Char} (h : cs.drop start = chars ++ rest) :
    cs.drop (start + chars.length) = rest := by
  rw [← List.drop_drop, h, List.drop_left]

/-! ## One step of a scan -/

/-- A stretch of no characters is lexed into no tokens. -/
theorem Lexed.empty (h : start ≤ cs.length) : Lexed cs start [] start where
  bounds := ⟨le_refl _, h⟩
  reads := by simp
  nonempty := by simp
  within := by simp
  ordered := List.Pairwise.nil
  between i c hi hi' _ := by omega

/-- A space before a stretch of text that is lexed adds no token. -/
theorem Lexed.space {c : Char} (hc : cs[start]? = some c) (hspace : isSpace c = true)
    (h : Lexed cs (start + 1) ts stop) : Lexed cs start ts stop where
  bounds := ⟨by have := h.bounds.1; omega, h.bounds.2⟩
  reads := h.reads
  nonempty := h.nonempty
  within t ht := ⟨by have := (h.within t ht).1; omega, (h.within t ht).2⟩
  ordered := h.ordered
  between i d hi hi' hd := by
    rcases hi.lt_or_eq with hlt | rfl
    · exact h.between i d hlt hi' hd
    · rw [hc] at hd
      cases hd
      exact .inl hspace

/-- A preferred match before a stretch of text that is lexed adds its token. -/
theorem Lexed.token {k : TokenKind} {chars : List Char} (hdrop : cs.drop start = chars ++ rest)
    (hprefers : Token.Prefers k chars rest) (h : Lexed cs (start + chars.length) ts stop) :
    Lexed cs start (⟨k, chars, start⟩ :: ts) stop where
  bounds := ⟨by have := h.bounds.1; omega, h.bounds.2⟩
  reads := List.forall_mem_cons.mpr ⟨⟨rest, hdrop, hprefers⟩, h.reads⟩
  nonempty := List.forall_mem_cons.mpr
    ⟨(ne_nil_and_prefix_of_lexeme? (lexeme?_eq_some_iff.mpr hprefers)).1, h.nonempty⟩
  within := List.forall_mem_cons.mpr ⟨⟨le_refl _, h.bounds.1⟩, fun t ht =>
    ⟨by have := (h.within t ht).1; omega, (h.within t ht).2⟩⟩
  ordered := h.ordered.cons fun t ht => (h.within t ht).1
  between i d hi hi' hd := by
    by_cases hlt : i < start + chars.length
    · exact .inr ⟨_, List.mem_cons_self, hi, hlt⟩
    · rcases h.between i d (by omega) hi' hd with hspace | ⟨t, ht, hcovers⟩
      · exact .inl hspace
      · exact .inr ⟨t, List.mem_cons_of_mem _ ht, hcovers⟩

/-- Between two offsets that are not the same there is a blank first, or a token. -/
theorem Lexed.step (h : Lexed cs start ts stop) (hlt : start < stop) :
    ∃ c, cs[start]? = some c ∧
      (isSpace c = true ∧ Lexed cs (start + 1) ts stop ∨
        ∃ k chars rest us, ts = ⟨k, chars, start⟩ :: us ∧ cs.drop start = chars ++ rest ∧
          Token.Prefers k chars rest ∧ Lexed cs (start + chars.length) us stop) := by
  have hbounds := h.bounds
  obtain ⟨c, hc⟩ : ∃ c, cs[start]? = some c := ⟨_, List.getElem?_eq_getElem (by omega)⟩
  refine ⟨c, hc, ?_⟩
  cases ts with
  | nil =>
    refine .inl ⟨?_, { h with bounds := ⟨hlt, hbounds.2⟩, within := by simp, between := ?_ }⟩
    · rcases h.between start c (le_refl _) hlt hc with hspace | ⟨t, ht, -⟩
      · exact hspace
      · cases ht
    · exact fun i d hi => h.between i d (by omega)
  | cons t us =>
    obtain ⟨hwithin, hus⟩ := List.forall_mem_cons.mp h.within
    obtain ⟨hafter, hordered⟩ := List.pairwise_cons.mp h.ordered
    have hpos := List.length_pos_iff.mpr (h.nonempty t List.mem_cons_self)
    by_cases hstart : t.start = start
    · -- The first token starts here, and the others after it.
      obtain ⟨rest, hdrop, hprefers⟩ := h.reads t List.mem_cons_self
      obtain ⟨k, chars, _⟩ := t
      obtain rfl := hstart
      refine .inr ⟨k, chars, rest, us, rfl, hdrop, hprefers, ?_⟩
      exact {
        bounds := ⟨hwithin.2, hbounds.2⟩
        reads := fun u hu => h.reads u (List.mem_cons_of_mem _ hu)
        nonempty := fun u hu => h.nonempty u (List.mem_cons_of_mem _ hu)
        within := fun u hu => ⟨hafter u hu, (hus u hu).2⟩
        ordered := hordered
        between := fun i d hi hi' hd => by
          rcases h.between i d (by omega) hi' hd with hspace | ⟨u, hu, hcovers⟩
          · exact .inl hspace
          · rcases List.mem_cons.mp hu with rfl | hu
            · exact absurd hcovers.2 (not_lt.mpr hi)
            · exact .inr ⟨u, hu, hcovers⟩ }
    · -- All tokens start later, so a blank stands here.
      have hlater (u : Token) (hu : u ∈ t :: us) : start + 1 ≤ u.start := by
        rcases List.mem_cons.mp hu with rfl | hu
        · omega
        · have := hafter u hu
          omega
      refine .inl ⟨?_, { h with bounds := ⟨hlt, hbounds.2⟩, within := ?_, between := ?_ }⟩
      · rcases h.between start c (le_refl _) hlt hc with hspace | ⟨u, hu, hcovers⟩
        · exact hspace
        · have := hlater u hu
          omega
      · exact fun u hu => ⟨hlater u hu, (h.within u hu).2⟩
      · exact fun i d hi => h.between i d (by omega)

/-! ## Whole scans -/

/-- A place is blocked exactly if neither a space nor a lexeme is there. -/
theorem blocked_iff {c : Char} (hc : cs[start]? = some c) :
    Blocked cs start ↔ isSpace c = false ∧ lexeme? (cs.drop start) = none := by
  unfold Blocked
  rw [lexeme?_eq_none_iff]
  constructor
  · exact fun h => h c hc
  · intro h d hd
    rw [hc] at hd
    cases hd
    exact h

/-- A scan gives the tokens up to the end of the text or to where it is blocked. -/
theorem lexed_scanFrom (start : ℕ) (rest cs : List Char) (hdrop : cs.drop start = rest)
    (hstart : start ≤ cs.length) :
    ∃ stop, Lexed cs start (scanFrom 0 start rest).tokens stop ∧ Blocked cs stop ∧
      (scanFrom 0 start rest).stop = cs[stop]?.map (·, stop) := by
  induction start, rest using scanFrom_induction with
  | nil start =>
    have hnone : cs[start]? = none := by
      rw [← List.head?_drop, hdrop, List.head?_nil]
    refine ⟨start, .empty hstart, ?_, by rw [hnone]; rfl⟩
    intro c hc
    rw [hnone] at hc
    cases hc
  | stuck start c rest hspace hlex =>
    have hc := getElem?_of_drop_eq_cons hdrop
    refine ⟨start, .empty hstart, ?_, by rw [hc]; rfl⟩
    rw [blocked_iff hc, hdrop]
    exact ⟨hspace, hlex⟩
  | space start c rest s hspace ih =>
    have hc := getElem?_of_drop_eq_cons hdrop
    obtain ⟨hlt, -⟩ := List.getElem?_eq_some_iff.mp hc
    obtain ⟨stop, hlexed, hstop⟩ := ih (by rw [drop_eq_cons hc] at hdrop; cases hdrop; rfl) hlt
    exact ⟨stop, hlexed.space hc hspace, hstop⟩
  | lexeme start k chars rest ts stop hlex ih =>
    have hlength := congrArg List.length hdrop
    rw [List.length_drop, List.length_append] at hlength
    obtain ⟨stop, hlexed, hstop⟩ := ih (drop_add_length hdrop) (by omega)
    exact ⟨stop, hlexed.token hdrop (lexeme?_eq_some_iff.mp hlex), hstop⟩

/-- The tokens of a text between two offsets are found by a scan if the text is blocked at the
second. -/
theorem Lexed.scanFrom_eq (h : Lexed cs start ts stop) (hblocked : Blocked cs stop) :
    scanFrom 0 start (cs.drop start) = ⟨ts, cs[stop]?.map (·, stop)⟩ := by
  induction hn : stop - start using Nat.strong_induction_on generalizing start ts with
  | _ n ih =>
    by_cases hlt : start < stop
    · obtain ⟨c, hc, ⟨hspace, hlexed⟩ | ⟨k, chars, rest, us, rfl, hdrop, hprefers, hlexed⟩⟩ :=
        h.step hlt
      · rw [drop_eq_cons hc, scanFrom, if_pos hspace]
        exact ih _ (by omega) hlexed rfl
      · have hlexeme := lexeme?_eq_some_iff.mpr hprefers
        have hpos := List.length_pos_iff.mpr (ne_nil_and_prefix_of_lexeme? hlexeme).1
        have hlater := ih _ (by omega) hlexed rfl
        rw [drop_add_length hdrop] at hlater
        rw [hdrop, scanFrom_lexeme hlexeme, hlater]
    · obtain rfl : start = stop := le_antisymm h.bounds.1 (not_lt.mp hlt)
      obtain rfl : ts = [] := by
        refine List.eq_nil_iff_forall_not_mem.mpr fun t ht => ?_
        have hpos := List.length_pos_iff.mpr (h.nonempty t ht)
        have hwithin := h.within t ht
        omega
      cases hc : cs[start]? with
      | none =>
        have hnil : cs.drop start = [] := by
          rw [← List.head?_eq_none_iff, List.head?_drop, hc]
        rw [hnil]
        rfl
      | some c =>
        obtain ⟨hspace, hlexeme⟩ := (blocked_iff hc).mp hblocked
        rw [drop_eq_cons hc] at hlexeme ⊢
        simp [scanFrom, hspace, hlexeme]

/-- A text is scanned into the only tokens that it has up to where it is blocked. -/
theorem scan_eq_iff_lexed {s : Scan} :
    scan cs = s ↔ ∃ stop, Lexed cs 0 s.tokens stop ∧ Blocked cs stop ∧
      s.stop = cs[stop]?.map (·, stop) := by
  constructor
  · rintro rfl
    exact lexed_scanFrom 0 cs cs List.drop_zero (Nat.zero_le _)
  · rintro ⟨stop, hlexed, hblocked, hstop⟩
    have hscan := hlexed.scanFrom_eq hblocked
    rw [List.drop_zero, ← hstop] at hscan
    exact hscan

/-! ## Tokens on their own -/

/-- A token without its offset. -/
def Token.lexeme (t : Token) : TokenKind × List Char := (t.kind, t.chars)

/-- Whether a token is read from its characters where nothing or a blank comes after them. -/
def Token.StandsAlone (t : Token) : Prop :=
  ∀ rest : List Char, Stops (· ≠ ' ') rest → lexeme? (t.chars ++ rest) = some t.lexeme

/-- What is not continued by a blank is not continued by a text that starts with one. -/
theorem stops_of_blank {p : Char → Bool} (hblank : p ' ' = false) (hrest : Stops (· ≠ ' ') rest) :
    Stops p rest := by
  intro c hc
  obtain rfl : c = ' ' := by simpa using hrest c hc
  exact hblank

/-- The kind of a word depends on what follows only as far as that continues the word. -/
theorem wordKind_congr {chars rest' : List Char} (h : Stops isWordChar rest)
    (h' : Stops isWordChar rest') : wordKind chars rest = wordKind chars rest' := by
  have hhead {cs : List Char} (hcs : Stops isWordChar cs) : cs.head?.any isWordChar = false := by
    cases cs with
    | nil => rfl
    | cons c cs => simpa using hcs
  unfold wordKind
  rw [hhead h, hhead h']

/-- The tokens of a text that is cut to its end do not depend on what comes after them. -/
theorem Cut.standsAlone (h : Cut start cs ts) : ∀ t ∈ ts, t.StandsAlone := by
  induction h with
  | nil => simp
  | space _ _ ih => exact ih
  | @lexeme _ k chars rest _ hlex hrest ih =>
    refine List.forall_mem_cons.mpr ⟨fun rest' hrest' => ?_, ih⟩
    have hlexeme : IsLexeme k chars rest' := by
      cases isLexeme_of_lexeme? hlex with
      | word hname hstop =>
        rw [wordKind_congr (hrest.stops_isWordChar hstop) (stops_of_blank (by decide) hrest')]
        exact .word hname (stops_of_blank (by decide) hrest')
      | number hp => exact .number hp
      | symbol hsymbol =>
        refine .symbol (symbol?_congr hsymbol fun hequal => ?_)
        have hblank := hrest' '=' hequal
        simp at hblank
    exact hlexeme.lexeme?_eq fun _ => stops_of_blank (by decide) hrest'

/-- Tokens that stand alone are read again from their characters with a blank between any two. -/
theorem exists_cut_intercalate (hts : ∀ t ∈ ts, t.StandsAlone) (start : ℕ) :
    ∃ us, Cut start (List.intercalate [' '] (ts.map Token.chars)) us ∧
      us.map Token.lexeme = ts.map Token.lexeme := by
  induction ts generalizing start with
  | nil => exact ⟨[], .nil start, rfl⟩
  | cons t ts ih =>
    obtain ⟨ht, hts⟩ := List.forall_mem_cons.mp hts
    cases ts with
    | nil =>
      have hcut : Cut start (t.chars ++ []) [⟨t.kind, t.chars, start⟩] :=
        .lexeme t.kind t.chars (ht [] (stops_nil _)) (.nil _)
      rw [List.append_nil] at hcut
      rw [List.map_cons, List.map_nil, List.intercalate_singleton]
      exact ⟨_, hcut, rfl⟩
    | cons u ts =>
      obtain ⟨us, hcut, hlexemes⟩ := ih hts (start + t.chars.length + 1)
      refine ⟨⟨t.kind, t.chars, start⟩ :: us, ?_, ?_⟩
      · rw [List.map_cons, List.map_cons, List.intercalate_cons_cons, List.append_assoc]
        exact .lexeme t.kind t.chars (ht _ (by simp)) (.space rfl hcut)
      · rw [List.map_cons, hlexemes]
        rfl

end Lexing

namespace Formula

variable {cs : List Char} {ts : List Token}

/-- A text is cut into tokens exactly if it is not blank and is lexed to its end. -/
theorem tokens_eq_ok_iff_lexed :
    tokens cs = .ok ts ↔ strip cs ≠ [] ∧ Lexed cs 0 ts cs.length := by
  rw [tokens_eq_ok_iff, scan_eq_iff_lexed]
  refine and_congr_right fun _ => ⟨?_, fun h => ?_⟩
  · rintro ⟨stop, hlexed, -, hstop⟩
    have hend : cs.length ≤ stop := by simpa using hstop.symm
    rwa [le_antisymm hlexed.bounds.2 hend] at hlexed
  · refine ⟨cs.length, h, fun c hc => ?_, by simp⟩
    simp at hc

/-- A text that is not blank is refused by the lexer exactly at an offset up to which it has tokens
and at which neither a blank nor a token starts. -/
theorem tokens_eq_error_iff_lexed {err : ParseError} (hblank : strip cs ≠ []) :
    tokens cs = .error err ↔ ∃ c p, err = .unexpectedCharacter c p ∧ cs[p]? = some c ∧
      Blocked cs p ∧ ∃ ts, Lexed cs 0 ts p := by
  have htokens : tokens cs = .error err ↔
      ∃ c p, err = .unexpectedCharacter c p ∧ (scan cs).stop = some (c, p) := by
    unfold tokens
    rw [if_neg (by simpa using hblank)]
    rcases scan cs with ⟨ts, _ | ⟨c, p⟩⟩ <;> simp [eq_comm]
  rw [htokens]
  refine exists₂_congr fun c p => and_congr_right fun _ => ⟨fun h => ?_, ?_⟩
  · obtain ⟨stop, hlexed, hblocked, hstop⟩ := scan_eq_iff_lexed.mp (Eq.refl (scan cs))
    obtain ⟨d, hd, heq⟩ := Option.map_eq_some_iff.mp (hstop.symm.trans h)
    cases heq
    exact ⟨hd, hblocked, _, hlexed⟩
  · rintro ⟨hc, hblocked, ts, hlexed⟩
    have hscan : scan cs = ⟨ts, cs[p]?.map (·, p)⟩ :=
      scan_eq_iff_lexed.mpr ⟨p, hlexed, hblocked, rfl⟩
    rw [hscan, hc]
    rfl

/-- The tokens of a text are lossless: they are some, they are the preferred matches at offsets that
follow one another, and nothing but blanks stands between them, no operator is a name in any letter
case, and their characters with one blank between any two are read as the same tokens. A text that
is not blank and has no such tokens up to its end is refused at the first offset at which, after
tokens and blanks only, neither a blank nor a token starts. -/
theorem tokens_lossless :
    (∀ (cs : List Char) (ts : List Token), tokens cs = .ok ts →
      ts ≠ [] ∧ Lexed cs 0 ts cs.length ∧
        (∀ t ∈ ts, t.kind = .name → isKeyword t.chars = false) ∧
        ∃ us, tokens (List.intercalate [' '] (ts.map Token.chars)) = .ok us ∧
          us.map Token.lexeme = ts.map Token.lexeme) ∧
      ∀ (cs : List Char) (err : ParseError), strip cs ≠ [] → tokens cs = .error err →
        ∃ c p, err = .unexpectedCharacter c p ∧ cs[p]? = some c ∧ Blocked cs p ∧
          ∃ ts, Lexed cs 0 ts p := by
  constructor
  · intro cs ts h
    obtain ⟨hblank, hscan⟩ := tokens_eq_ok_iff.mp h
    have hcut := scan_eq_iff.mp hscan
    have hlexed := (tokens_eq_ok_iff_lexed.mp h).2
    have hne : ts ≠ [] := by
      rintro rfl
      -- Without tokens there would be blanks only.
      refine hblank (strip_eq_nil_iff.mpr fun c hc => isBlank_of_isSpace ?_)
      obtain ⟨i, hi⟩ := List.mem_iff_getElem?.mp hc
      obtain ⟨hlt, -⟩ := List.getElem?_eq_some_iff.mp hi
      simpa using hlexed.between i c (Nat.zero_le i) hlt hi
    obtain ⟨us, hagain, hlexemes⟩ := exists_cut_intercalate hcut.standsAlone 0
    refine ⟨hne, hlexed, fun t ht hname => (hcut.properNames t ht hname).2, us, ?_, hlexemes⟩
    refine tokens_eq_ok_iff.mpr ⟨fun hstrip => hne ?_, scan_eq_iff.mpr hagain⟩
    have hnil := hagain.eq_nil_of_blank (strip_eq_nil_iff.mp hstrip)
    rw [hnil] at hlexemes
    exact List.map_eq_nil_iff.mp hlexemes.symm
  · exact fun cs err hblank h => (tokens_eq_error_iff_lexed hblank).mp h

/-- A word that only starts like an operator, a numeral that ends before its mark and an exclamation
mark in front of two equals signs; a single equals sign is no token. -/
theorem tokens_lossless_not_rate :
    (∃ us, tokens "not_rate ! == .5 e NOT".toList = .ok us ∧
      us.map (fun t => (t.kind, t.text)) = [(.name, "not_rate"), (.not, "!"), (.equal, "=="),
        (.number, ".5"), (.name, "e"), (.not, "NOT")]) ∧
      ∃ ts, Lexed "a <== b".toList 0 ts 4 := by
  constructor
  · have htokens : tokens "not_rate! ==.5e\tNOT".toList = .ok
        [⟨.name, "not_rate".toList, 0⟩, ⟨.not, ['!'], 8⟩, ⟨.equal, ['=', '='], 10⟩,
          ⟨.number, ['.', '5'], 12⟩, ⟨.name, ['e'], 14⟩, ⟨.not, "NOT".toList, 16⟩] := by rfl
    obtain ⟨-, -, -, us, hus, hlexemes⟩ := tokens_lossless.1 _ _ htokens
    refine ⟨us, hus, ?_⟩
    have htexts := congrArg (List.map fun l => (l.1, String.ofList l.2)) hlexemes
    rw [List.map_map] at htexts
    exact htexts
  · have htokens : tokens "a <== b".toList = .error (.unexpectedCharacter '=' 4) := by rfl
    obtain ⟨c, p, heq, -, -, hlexed⟩ := tokens_lossless.2 _ _ (by decide) htokens
    cases heq
    exact hlexed

end Formula

end PayrollFormula
