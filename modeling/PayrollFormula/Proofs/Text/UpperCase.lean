import PayrollFormula.Proofs.Text.Names

/-!
# There are no small letters in upper case

The upper case of a character, whether by rule or by table, has no small ASCII letter in it
(`not_isSmall_of_mem_upperChar`). So a text that names something and is the upper case of any text
at all is its own upper case (`upperCase_of_isName`).
-/

set_option autoImplicit false

namespace PayrollFormula

/-- Whether a character is a small ASCII letter. -/
def IsSmall (c : Char) : Prop := 'a' ≤ c ∧ c ≤ 'z'

instance (c : Char) : Decidable (IsSmall c) := inferInstanceAs (Decidable ('a' ≤ c ∧ c ≤ 'z'))

/-- The small letters of ASCII have the numbers from 97 to 122. -/
theorem isSmall_iff {c : Char} : IsSmall c ↔ 97 ≤ c.toNat ∧ c.toNat ≤ 122 := by
  simp only [IsSmall, Char.le_def, UInt32.le_iff_toNat_le]
  rfl

/-- A code point beside those of the small letters is no small letter. -/
theorem not_isSmall_ofNat {n : ℕ} (h : n < 97 ∨ 122 < n) : ¬IsSmall (Char.ofNat n) := by
  have hcode : (Char.ofNat n).toNat = n ∨ (Char.ofNat n).toNat = 0 := by
    rw [Char.ofNat]
    by_cases hn : n.isValidChar
    · exact .inl (by rw [dif_pos hn]; rfl)
    · exact .inr (by rw [dif_neg hn]; rfl)
  rw [isSmall_iff]
  omega

namespace UpperCase

/-- No character that becomes several in upper case becomes a small letter. -/
theorem not_isSmall_of_mem_expansions :
    ∀ p ∈ expansions, ∀ n ∈ p.2, ¬IsSmall (Char.ofNat n) := by
  decide +kernel

/-- No run is shifted onto the small letters. -/
theorem beside_small_of_mem_runs :
    ∀ r ∈ runs, r.last + r.shift < 97 ∨ 122 < r.first + r.shift := by
  decide +kernel

/-- In upper case, no character beyond ASCII becomes a small letter. -/
theorem not_isSmall_of_mem_mapWide {c d : Char} (hc : 128 ≤ c.toNat) (hd : d ∈ mapWide c) :
    ¬IsSmall d := by
  unfold mapWide at hd
  split at hd
  case h_1 ns hlookup =>
    obtain ⟨n, hn, rfl⟩ := List.mem_map.mp hd
    obtain ⟨before, after, hexpansions, -⟩ := List.lookup_eq_some_iff.mp hlookup
    have hmem : (c.toNat, ns) ∈ expansions := by simp [hexpansions]
    exact not_isSmall_of_mem_expansions _ hmem n hn
  case h_2 =>
    split at hd
    case h_1 r hfind =>
      obtain rfl := List.mem_singleton.mp hd
      have hcovers := List.find?_some hfind
      simp only [Run.covers, Bool.and_eq_true, decide_eq_true_eq] at hcovers
      have hshift := beside_small_of_mem_runs r (List.mem_of_find?_eq_some hfind)
      exact not_isSmall_ofNat (by omega)
    case h_2 =>
      rw [List.mem_singleton.mp hd, isSmall_iff]
      omega

end UpperCase

/-- In upper case, no character becomes a small letter. -/
theorem not_isSmall_of_mem_upperChar {c d : Char} (hd : d ∈ upperChar c) : ¬IsSmall d := by
  unfold upperChar at hd
  split_ifs at hd with hascii hsmall
  · rw [List.mem_singleton.mp hd]
    have hcode := isSmall_iff.mp hsmall
    exact not_isSmall_ofNat (by omega)
  · rw [List.mem_singleton.mp hd]
    exact hsmall
  · exact UpperCase.not_isSmall_of_mem_mapWide (Nat.not_lt.mp hascii) hd

/-- The upper case of a text is its own upper case if it has the form of a name. -/
theorem upperCase_of_isName {s : String} (h : isName (upperCase s).toList = true) :
    upperCase (upperCase s) = upperCase s := by
  have hletter (c : Char) (hc : c ∈ (upperCase s).toList) : upperLetter c = c := by
    rw [upperCase, String.toList_ofList, List.mem_flatMap] at hc
    obtain ⟨b, -, hb⟩ := hc
    exact if_neg (not_isSmall_of_mem_upperChar hb)
  have hself := toList_upperCase h
  rw [List.map_congr_left (g := id) hletter, List.map_id] at hself
  exact String.toList_inj.mp hself

end PayrollFormula
