import Mathlib.Data.List.Basic
import PayrollFormula.Text.Lines
import PayrollFormula.Text.Utf8

/-!
# Lines of ASCII text

A text of ASCII characters has one byte for each of them, and its bytes are decoded as the text
(`decode_ascii`). Lines without line ends of their own are cut apart again where they were joined
(`splitLines_lines`).
-/

set_option autoImplicit false

namespace PayrollFormula

namespace Utf8

/-- Whether all characters of a text are ASCII characters. -/
def IsAscii (cs : List Char) : Prop := ∀ c ∈ cs, c.toNat < 128

/-- The byte of an ASCII character. -/
def byteOf (c : Char) : UInt8 := UInt8.ofNat c.toNat

/-- The byte of an ASCII character is its number. -/
theorem toNat_byteOf {c : Char} (h : c.toNat < 128) : (byteOf c).toNat = c.toNat :=
  UInt8.toNat_ofNat_of_lt' (Nat.lt_trans h (by decide))

/-- ASCII text is encoded character by character. -/
theorem encode_ascii {cs : List Char} (h : IsAscii cs) :
    encode (String.ofList cs) = cs.map byteOf := by
  have hbytes : cs.flatMap String.utf8EncodeChar = cs.map byteOf := by
    rw [List.map_eq_flatMap]
    refine List.flatMap_congr fun c hc => ?_
    rw [String.utf8EncodeChar.eq_1]
    exact if_pos (Nat.le_of_lt_succ (h c hc))
  unfold encode String.toUTF8
  rw [String.toByteArray_ofList, List.utf8Encode, hbytes, List.data_toByteArray]

/-- ASCII bytes are decoded character by character. -/
theorem run_ascii {cs : List Char} (h : IsAscii cs) (out : List Char) :
    run .ready out (cs.map byteOf) = (cs.reverse ++ out, .ready) := by
  induction cs generalizing out with
  | nil => rfl
  | cons c cs ih =>
    obtain ⟨hc, hcs⟩ := List.forall_mem_cons.mp h
    have hstep : step .ready (byteOf c).toNat = ([c], .ready) := by
      rw [toNat_byteOf hc, step, start, if_pos hc, Char.ofNat_toNat]
    rw [List.map_cons, run, hstep]
    simp only [List.reverse_singleton, List.singleton_append]
    rw [ih hcs, List.reverse_cons, List.append_assoc]
    rfl

/-- ASCII text is read back from its bytes. -/
theorem decode_ascii {cs : List Char} (h : IsAscii cs) : decode (cs.map byteOf) = cs := by
  unfold decode
  rw [run_ascii h []]
  simp [finish]

end Utf8

/-! ## Lines -/

namespace Lines

/-- A line without a line end of its own is cut off at the line feed after it. -/
theorem cut_line {line : List Char} (h : ∀ c ∈ line, isLineEnd c = false) (current rest : List Char)
    (finished : List (List Char)) :
    cut current finished (line ++ '\n' :: rest) =
      cut [] ((current.reverse ++ line) :: finished) rest := by
  induction line generalizing current with
  | nil =>
    rw [List.nil_append, cut, List.append_nil]
    · rfl
    · exact fun _ h => absurd h (by decide)
  | cons c line ih =>
    obtain ⟨hc, hline⟩ := List.forall_mem_cons.mp h
    rw [List.cons_append, cut, hc]
    · simp only [Bool.false_eq_true, if_false]
      rw [ih hline, List.reverse_cons, List.append_assoc]
      rfl
    · rintro _ rfl
      exact absurd hc (by decide)

end Lines

/-- Lines without line ends of their own are cut apart where they were joined. -/
theorem splitLines_lines {lines : List (List Char)}
    (h : ∀ line ∈ lines, ∀ c ∈ line, isLineEnd c = false) :
    splitLines (lines.flatMap (· ++ ['\n'])) = lines := by
  have hcut (finished : List (List Char)) :
      Lines.cut [] finished (lines.flatMap (· ++ ['\n'])) = finished.reverse ++ lines := by
    induction lines generalizing finished with
    | nil => simp [Lines.cut]
    | cons line lines ih =>
      obtain ⟨hline, hlines⟩ := List.forall_mem_cons.mp h
      rw [List.flatMap_cons, List.append_assoc, List.singleton_append, Lines.cut_line hline,
        ih hlines]
      simp
  exact hcut []

/-- A text that neither starts nor ends with a blank has none at either end. -/
theorem strip_eq_self {first last : Char} (hfirst : isBlank first = false)
    (hlast : isBlank last = false) (between : List Char) :
    strip (first :: (between ++ [last])) = first :: (between ++ [last]) := by
  unfold strip trimmed
  rw [List.dropWhile_cons_of_neg (by simp [hfirst]), List.reverse_cons, List.reverse_append,
    List.reverse_singleton, List.singleton_append, List.cons_append,
    List.dropWhile_cons_of_neg (by simp [hlast])]
  simp

end PayrollFormula
