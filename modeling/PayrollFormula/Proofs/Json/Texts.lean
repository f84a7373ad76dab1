import Mathlib.Data.List.Basic
import PayrollFormula.Json.Token
import PayrollFormula.Json.Written

/-!
# Texts written and read

Every character of a text is written as itself, with a backslash, or as one or two code units, and
reading these gives the character back (`textUnits_escaped`). So a text between its quotes is read
as one token, whatever comes after it (`lexeme_writeText`). All characters that are written are
printable ones of ASCII.
-/

set_option autoImplicit false

namespace PayrollFormula

namespace Json

/-! ## Hexadecimal digits -/

/-- The last digit comes after the digits of the sixteenth part, which are padded in its place. -/
theorem hexPadded_succ {width n : ℕ} (hwidth : 0 < width) :
    hexPadded (width + 1) n = hexPadded width (n / 16) ++ [(n % 16).digitChar] := by
  unfold hexPadded
  by_cases hn : n < 16
  · -- The last digit is the only one that is not padding.
    have hzero : n / 16 = 0 := Nat.div_eq_of_lt hn
    obtain ⟨w, rfl⟩ : ∃ w, width = w + 1 := ⟨width - 1, by omega⟩
    simp only [Nat.toDigits_of_lt_base hn, hzero, Nat.mod_eq_of_lt hn, Nat.toDigits_zero,
      List.length_singleton, Nat.add_sub_cancel, List.replicate_succ']
  · simp only [Nat.toDigits_of_base_le (by decide) (Nat.not_lt.mp hn), List.length_append,
      List.length_singleton, Nat.add_sub_add_right, List.append_assoc]

/-- A unit of UTF-16 has four hexadecimal digits. -/
theorem hexPadded_four {n : ℕ} (hn : n < 65536) :
    hexPadded 4 n = [(n / 4096).digitChar, (n / 256 % 16).digitChar, (n / 16 % 16).digitChar,
      (n % 16).digitChar] := by
  have hlast : hexPadded 1 (n / 4096) = [(n / 4096).digitChar] := by
    simp [hexPadded, Nat.toDigits_of_lt_base (b := 16) (n := n / 4096) (by omega)]
  have hdiv : n / 16 / 16 = n / 256 := Nat.div_div_eq_div_mul n 16 16
  have hdiv' : n / 256 / 16 = n / 4096 := Nat.div_div_eq_div_mul n 256 16
  rw [hexPadded_succ (by decide), hexPadded_succ (by decide), hexPadded_succ (by decide), hdiv,
    hdiv', hlast]
  rfl

/-- The digit of a number below sixteen is read as the number. -/
theorem hexDigit_digitChar {d : ℕ} (hd : d < 16) : hexDigit? d.digitChar = some d := by
  decide +revert

/-- Four hexadecimal digits are read as the number that they write. -/
theorem exists_hexPadded_four {n : ℕ} (hn : n < 65536) :
    ∃ a b c d, hexPadded 4 n = [a, b, c, d] ∧ hexUnit? a b c d = some n := by
  refine ⟨_, _, _, _, hexPadded_four hn, ?_⟩
  have hunit : ((n / 4096 * 16 + n / 256 % 16) * 16 + n / 16 % 16) * 16 + n % 16 = n := by omega
  rw [hexUnit?, hexDigit_digitChar (by omega), hexDigit_digitChar (by omega),
    hexDigit_digitChar (by omega), hexDigit_digitChar (by omega)]
  exact congrArg some hunit

/-! ## Characters -/

/-- Whether a character is a printable one of ASCII. -/
def IsShown (c : Char) : Prop := 32 ≤ c.toNat ∧ c.toNat < 127

instance (c : Char) : Decidable (IsShown c) := inferInstanceAs (Decidable (_ ∧ _))

/-- The characters of a text are printable if a check of all says so. -/
theorem isShown_of_all {cs : List Char} (h : cs.all (fun c => decide (IsShown c)) = true) :
    ∀ c ∈ cs, IsShown c :=
  fun c hc => of_decide_eq_true (List.all_eq_true.mp h c hc)

/-- No character is half a pair. -/
theorem toNat_valid (c : Char) : c.toNat < 0xd800 ∨ 0xdfff < c.toNat ∧ c.toNat < 0x110000 :=
  c.valid

/-- The units of UTF-16 of a character. -/
def unitsOf (c : Char) : List ℕ :=
  if c.toNat < 0x10000 then [c.toNat]
  else [0xd800 + (c.toNat - 0x10000) / 0x400, 0xdc00 + (c.toNat - 0x10000) % 0x400]

/-- An escaped unit of UTF-16 is read as the unit. -/
theorem textUnits_escapedUnit {n : ℕ} (hn : n < 65536) (cs : List Char) :
    textUnits (escapedUnit n ++ cs) = (textUnits cs).map fun p => (n :: p.1, p.2 + 6) := by
  obtain ⟨a, b, c, d, hdigits, hunit⟩ := exists_hexPadded_four hn
  rw [escapedUnit, hdigits]
  simp only [List.cons_append, List.nil_append, textUnits, hunit]
  cases textUnits cs <;> rfl

/-- A character that stands for itself is read as its code point. -/
theorem textUnits_cons {c : Char} (hquote : c ≠ '"') (hslash : c ≠ '\\') (hshown : 32 ≤ c.toNat)
    (cs : List Char) :
    textUnits (c :: cs) = (textUnits cs).map fun p => (c.toNat :: p.1, p.2 + 1) := by
  rw [textUnits, if_neg (by omega)]
  · cases textUnits cs <;> rfl
  · exact hquote
  · exact fun _ _ _ _ _ h => absurd h hslash
  · exact fun _ _ h => absurd h hslash

/-- A backslash with a letter is read as what the letter stands for. -/
theorem textUnits_escape {c : Char} {n : ℕ} (hletter : c ≠ 'u') (hc : escape? c = some n)
    (cs : List Char) :
    textUnits ('\\' :: c :: cs) = (textUnits cs).map fun p => (n :: p.1, p.2 + 2) := by
  rw [textUnits, hc]
  · cases textUnits cs <;> rfl
  · exact fun _ _ _ _ _ h => absurd h hletter

/-- The forms in which a character is written: a backslash with a letter, the character itself, or
its code units. -/
inductive IsWritten (c : Char) : List Char → Prop where
  | letter {l : Char} : l ≠ 'u' → IsShown l → escape? l = some c.toNat → IsWritten c ['\\', l]
  | self : c ≠ '"' → c ≠ '\\' → IsShown c → IsWritten c [c]
  | unit : c.toNat < 65536 → IsWritten c (escapedUnit c.toNat)
  | pair : 65536 ≤ c.toNat → IsWritten c
      (escapedUnit (0xd800 + (c.toNat - 0x10000) / 0x400)
        ++ escapedUnit (0xdc00 + (c.toNat - 0x10000) % 0x400))

/-- A character is written in one of the forms for it. -/
theorem isWritten_escaped (c : Char) : IsWritten c (escaped c) := by
  unfold escaped
  by_cases hquote : c = '"'
  · rw [if_pos hquote]
    exact .letter (by decide) (by decide) (by rw [hquote]; rfl)
  rw [if_neg hquote]
  by_cases hslash : c = '\\'
  · rw [if_pos hslash]
    exact .letter (by decide) (by decide) (by rw [hslash]; rfl)
  rw [if_neg hslash]
  by_cases hfeed : c = '\n'
  · rw [if_pos hfeed]
    exact .letter (by decide) (by decide) (by rw [hfeed]; rfl)
  rw [if_neg hfeed]
  by_cases hreturn : c = '\r'
  · rw [if_pos hreturn]
    exact .letter (by decide) (by decide) (by rw [hreturn]; rfl)
  rw [if_neg hreturn]
  by_cases htab : c = '\t'
  · rw [if_pos htab]
    exact .letter (by decide) (by decide) (by rw [htab]; rfl)
  rw [if_neg htab]
  by_cases hform : c.toNat = 12
  · rw [if_pos hform]
    exact .letter (by decide) (by decide) (by rw [hform]; rfl)
  rw [if_neg hform]
  by_cases hback : c.toNat = 8
  · rw [if_pos hback]
    exact .letter (by decide) (by decide) (by rw [hback]; rfl)
  rw [if_neg hback]
  by_cases hshown : 32 ≤ c.toNat ∧ c.toNat < 127
  · rw [if_pos hshown]
    exact .self hquote hslash hshown
  rw [if_neg hshown]
  by_cases hnarrow : c.toNat < 0x10000
  · rw [if_pos hnarrow]
    exact .unit hnarrow
  rw [if_neg hnarrow]
  exact .pair (Nat.not_lt.mp hnarrow)

/-- An escaped unit of UTF-16 has six characters. -/
theorem length_escapedUnit {n : ℕ} (hn : n < 65536) : (escapedUnit n).length = 6 := by
  rw [escapedUnit, hexPadded_four hn]
  rfl

/-- What a letter after a backslash stands for is a single unit. -/
theorem lt_of_escape {c : Char} {n : ℕ} (h : escape? c = some n) : n < 65536 := by
  unfold escape? at h
  by_cases hself : c = '"' ∨ c = '\\' ∨ c = '/'
  · rcases hself with rfl | rfl | rfl <;> cases h <;> decide
  · rw [if_neg hself] at h
    split_ifs at h <;> cases h <;> decide

/-- The written form of a character is read as its units. -/
theorem textUnits_escaped (c : Char) (cs : List Char) :
    textUnits (escaped c ++ cs) =
      (textUnits cs).map fun p => (unitsOf c ++ p.1, p.2 + (escaped c).length) := by
  have hnarrow (hn : c.toNat < 65536) : unitsOf c = [c.toNat] := by rw [unitsOf, if_pos hn]
  have hform := isWritten_escaped c
  generalize escaped c = form at hform ⊢
  cases hform with
  | letter hletter _ hc =>
    rw [hnarrow (lt_of_escape hc)]
    exact textUnits_escape hletter hc cs
  | self hquote hslash hshown =>
    rw [hnarrow (Nat.lt_trans hshown.2 (by decide))]
    exact textUnits_cons hquote hslash hshown.1 cs
  | unit hn =>
    rw [textUnits_escapedUnit hn, length_escapedUnit hn, hnarrow hn]
    rfl
  | pair hn =>
    -- Both units of a pair are read in turn.
    have hc := toNat_valid c
    have hhigh : 0xd800 + (c.toNat - 0x10000) / 0x400 < 65536 := by omega
    have hlow : 0xdc00 + (c.toNat - 0x10000) % 0x400 < 65536 := by omega
    rw [List.append_assoc, textUnits_escapedUnit hhigh, textUnits_escapedUnit hlow, Option.map_map,
      List.length_append, length_escapedUnit hhigh, length_escapedUnit hlow, unitsOf,
      if_neg (Nat.not_lt.mpr hn)]
    rfl

/-- The written form of a text is read up to its closing quote. -/
theorem textUnits_flatMap_escaped (cs rest : List Char) :
    textUnits (cs.flatMap escaped ++ '"' :: rest) =
      some (cs.flatMap unitsOf, (cs.flatMap escaped).length + 1) := by
  induction cs with
  | nil => rfl
  | cons c cs ih =>
    rw [List.flatMap_cons, List.append_assoc, textUnits_escaped, ih, List.length_append]
    simp only [Option.map_some, List.flatMap_cons]
    congr 2
    omega

/-! ## Units -/

/-- The units of a character are joined again, whatever comes after them. -/
theorem joinUnits_unitsOf (c : Char) (units : List ℕ) :
    joinUnits (unitsOf c ++ units) = c :: joinUnits units := by
  unfold unitsOf
  split_ifs with hnarrow
  · have hc := toNat_valid c
    have hhigh : isHigh c.toNat = false := by
      simp only [isHigh, Bool.and_eq_false_iff, decide_eq_false_iff_not]
      omega
    have hlow : isLow c.toNat = false := by
      simp only [isLow, Bool.and_eq_false_iff, decide_eq_false_iff_not]
      omega
    have hunit : unitChar c.toNat = c := by
      rw [unitChar, hhigh, hlow]
      exact Char.ofNat_toNat c
    cases units with
    | nil => exact congrArg (fun d => [d]) hunit
    | cons n units =>
      rw [List.cons_append, List.nil_append, joinUnits, hhigh, hunit]
      rfl
  · have hc := toNat_valid c
    have hhigh : isHigh (0xd800 + (c.toNat - 0x10000) / 0x400) = true := by
      simp only [isHigh, Bool.and_eq_true, decide_eq_true_eq]
      omega
    have hlow : isLow (0xdc00 + (c.toNat - 0x10000) % 0x400) = true := by
      simp only [isLow, Bool.and_eq_true, decide_eq_true_eq]
      omega
    have hpair : 0x10000 + (0xd800 + (c.toNat - 0x10000) / 0x400 - 0xd800) * 0x400 +
        (0xdc00 + (c.toNat - 0x10000) % 0x400 - 0xdc00) = c.toNat := by omega
    rw [List.cons_append, List.cons_append, List.nil_append, joinUnits, hhigh, hlow, hpair,
      Char.ofNat_toNat]
    rfl

/-- The units of UTF-16 of characters are joined to the characters. -/
theorem joinUnits_flatMap_unitsOf (cs : List Char) : joinUnits (cs.flatMap unitsOf) = cs := by
  induction cs with
  | nil => rfl
  | cons c cs ih => rw [List.flatMap_cons, joinUnits_unitsOf, ih]

/-- A text between its quotes is one token. -/
theorem lexeme_writeText (s : String) (rest : List Char) :
    lexeme? (writeText s ++ rest) = some (.text s, (writeText s).length) := by
  have hunits := textUnits_flatMap_escaped s.toList rest
  rw [writeText, List.cons_append, List.append_assoc, List.singleton_append]
  simp only [lexeme?, hunits, Option.map_some, joinUnits_flatMap_unitsOf, String.ofList_toList,
    List.length_cons, List.length_append, List.length_nil]

/-! ## Characters that are written -/

/-- An escaped unit of UTF-16 is printable. -/
theorem isShown_escapedUnit {n : ℕ} (hn : n < 65536) : ∀ c ∈ escapedUnit n, IsShown c := by
  have hdigit {d : ℕ} (hd : d < 16) : IsShown d.digitChar := by
    decide +revert
  rw [escapedUnit, hexPadded_four hn]
  simp only [List.forall_mem_cons, List.not_mem_nil, false_implies, implies_true, and_true]
  refine ⟨by decide, by decide, hdigit ?_, hdigit ?_, hdigit ?_, hdigit ?_⟩ <;> omega

/-- An escaped character is printable. -/
theorem isShown_escaped (c : Char) : ∀ d ∈ escaped c, IsShown d := by
  have hform := isWritten_escaped c
  generalize escaped c = form at hform ⊢
  cases hform with
  | letter _ hshown _ =>
    exact List.forall_mem_cons.mpr ⟨by decide, List.forall_mem_singleton.mpr hshown⟩
  | self _ _ hshown => exact List.forall_mem_singleton.mpr hshown
  | unit hn => exact isShown_escapedUnit hn
  | pair hn =>
    have hc := toNat_valid c
    exact List.forall_mem_append.mpr
      ⟨isShown_escapedUnit (by omega), isShown_escapedUnit (by omega)⟩

/-- A written text is printable. -/
theorem isShown_writeText (s : String) : ∀ c ∈ writeText s, IsShown c := by
  have hescaped : ∀ c ∈ s.toList.flatMap escaped, IsShown c := by
    intro c hc
    obtain ⟨d, -, hd⟩ := List.mem_flatMap.mp hc
    exact isShown_escaped d c hd
  rw [writeText, List.forall_mem_cons, List.forall_mem_append, List.forall_mem_singleton]
  exact ⟨by decide, hescaped, by decide⟩

end Json

end PayrollFormula
