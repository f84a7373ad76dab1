import Mathlib.Data.List.Basic
import PayrollFormula.Log.Journal
import PayrollFormula.Proofs.Json.Image
import PayrollFormula.Proofs.Log.Prepared
import PayrollFormula.Proofs.Text.Lines

/-!
# Lines of a log

The line of an event is a piece of ASCII text with one line end, at its end. So a file of such lines
is cut into them again, and each is read as its event (`readLines_lines`). The end of a file is
looked at from some byte on: the line with this byte in it is left out, and every line after it is
read (`exists_tail`).
-/

set_option autoImplicit false

namespace PayrollFormula

namespace Event

/-- The record that an event is written as. -/
def value (e : Event) : Value := .record e.toFields

/-- Whether there is nothing in an event that JSON has no form for. -/
def IsPlain (e : Event) : Prop := e.value.Everywhere Json.IsPlain

end Event

namespace Journal

open Utf8

variable {e : Event} {es : List Event}

/-! ## One line -/

/-- The text of an event, without the line feed after it. -/
def body (e : Event) : List Char := Json.write e.value

/-- The text of an event is printable. -/
theorem isShown_body (e : Event) : ∀ c ∈ body e, Json.IsShown c := Json.isShown_write _

/-- The text of an event is ASCII. -/
theorem isAscii_body (e : Event) : IsAscii (body e) := by
  intro c hc
  exact Nat.lt_trans (isShown_body e c hc).2 (by decide)

/-- The line of an event is ASCII. -/
theorem isAscii_line (e : Event) : IsAscii (line e) :=
  List.forall_mem_append.mpr ⟨isAscii_body e, List.forall_mem_singleton.mpr (by decide)⟩

/-- No character in the text of an event ends a line. -/
theorem isLineEnd_of_mem_body {c : Char} (hc : c ∈ body e) : isLineEnd c = false := by
  obtain ⟨hlow, hhigh⟩ := isShown_body e c hc
  simp only [isLineEnd, Bool.or_eq_false_iff, Bool.and_eq_false_iff, decide_eq_false_iff_not]
  omega

/-- The line of an event has one byte for each character. -/
theorem lineBytes_eq (e : Event) : lineBytes e = (line e).map byteOf :=
  encode_ascii (isAscii_line e)

/-- A line ends with the only line feed in it. -/
theorem exists_lineBytes (e : Event) : ∃ bytes, lineBytes e = bytes ++ [10] ∧ 10 ∉ bytes := by
  refine ⟨(body e).map byteOf, ?_, ?_⟩
  · rw [lineBytes_eq, line, List.map_append]
    rfl
  · intro hmem
    obtain ⟨c, hc, hbyte⟩ := List.mem_map.mp hmem
    have hcode := toNat_byteOf (isAscii_body e c hc)
    rw [hbyte] at hcode
    have hshown : 32 ≤ c.toNat := (isShown_body e c hc).1
    rw [← hcode] at hshown
    exact absurd hshown (by decide)

/-- The text of an event has no blanks around it. -/
theorem strip_body (e : Event) : strip (body e) = body e := by
  rw [body, Event.value, Json.write_record]
  exact strip_eq_self (by decide) (by decide) _

/-- The text of an event is not empty. -/
theorem body_ne_nil (e : Event) : (body e).isEmpty = false := by
  rw [body, Event.value, Json.write_record]
  rfl

/-- An event that has a line is not too deep to be read. -/
theorem levels_value_le (he : unwritable? e = none) : Json.levels e.value ≤ Json.maxOpen := by
  obtain ⟨hlevels, -⟩ := Event.unwritable?_eq_none_iff.mp he
  have hbound : Json.maxLevels = 255 := rfl
  have hopen : Json.maxOpen = 985 := rfl
  have hcode : Json.levels (Event.optionalText e.errorCode) = 1 := by cases e.errorCode <;> rfl
  simp only [Event.value, Event.toFields, Json.levels, Json.fieldLevels, hcode]
  omega

/-- A plain event that has a line is read back, with its fields in order. -/
theorem read_body (hplain : e.IsPlain) (he : unwritable? e = none) :
    Json.read (body e) = .ok e.value.arranged :=
  Json.read_write hplain (Event.unwritable?_eq_none_iff.mp he).2 (levels_value_le he)

/-- An event that has a line is read back as its image, with its fields in order, if names of
fields are different in it. -/
theorem read_body_image (hnames : e.value.Everywhere Value.HasDistinctNames)
    (he : unwritable? e = none) : Json.read (body e) = .ok (Json.image e.value).arranged :=
  Json.read_write_image hnames (Event.unwritable?_eq_none_iff.mp he).2 (levels_value_le he)

/-! ## The lines of a file -/

/-- The number of bytes of the lines of events. -/
def size (es : List Event) : ℕ := (es.flatMap lineBytes).length

/-- The lines of events and of others have the bytes of both. -/
theorem size_append (es fs : List Event) : size (es ++ fs) = size es + size fs := by
  rw [size, List.flatMap_append, List.length_append, size, size]

/-- The first of several events adds the bytes of its line. -/
theorem size_cons (e : Event) (es : List Event) :
    size (e :: es) = (lineBytes e).length + size es := by
  rw [size, List.flatMap_cons, List.length_append, size]

/-- The first of several events have no more bytes than all of them. -/
theorem size_le_of_isPrefix {fs : List Event} (h : es <+: fs) : size es ≤ size fs := by
  obtain ⟨rest, rfl⟩ := h
  rw [size_append]
  exact Nat.le_add_right _ _

/-- The lines of a file are cut apart again. -/
theorem splitLines_decode (es : List Event) :
    splitLines (decode (es.flatMap lineBytes)) = es.map body := by
  have hbytes : es.flatMap lineBytes = (es.flatMap line).map byteOf := by
    rw [List.map_flatMap]
    exact List.flatMap_congr fun e _ => lineBytes_eq e
  have hascii : IsAscii (es.flatMap line) := by
    intro c hc
    obtain ⟨e, -, hc⟩ := List.mem_flatMap.mp hc
    exact isAscii_line e c hc
  have hlines : es.flatMap line = (es.map body).flatMap (· ++ ['\n']) := by
    rw [List.flatMap_map]
    rfl
  rw [hbytes, decode_ascii hascii, hlines]
  refine splitLines_lines fun l hl c hc => ?_
  obtain ⟨e, -, rfl⟩ := List.mem_map.mp hl
  exact isLineEnd_of_mem_body hc

/-- The lines of events are read as what each of them is read as. -/
theorem readLines_lines {g : Event → Value} (hes : ∀ e ∈ es, Json.read (body e) = .ok (g e)) :
    readLines (splitLines (decode (es.flatMap lineBytes))) = .ok (es.map g) := by
  rw [splitLines_decode]
  induction es with
  | nil => rfl
  | cons e es ih =>
    obtain ⟨he, hrest⟩ := List.forall_mem_cons.mp hes
    rw [List.map_cons, readLines, strip_body, body_ne_nil, he, ih hrest]
    rfl

/-! ## The end of a file -/

/-- From a byte on, what comes after the line with this byte in it are the later lines. -/
theorem exists_dropWhile {m : ℕ} (hm : m < size es) :
    ∃ before e after, es = before ++ e :: after ∧ size before ≤ m ∧ m < size (before ++ [e]) ∧
      ((es.flatMap lineBytes).drop m).dropWhile (· ≠ 10) = 10 :: after.flatMap lineBytes := by
  induction es generalizing m with
  | nil => exact absurd hm (Nat.not_lt_zero m)
  | cons e es ih =>
    rw [size_cons] at hm
    by_cases hline : m < (lineBytes e).length
    · -- The byte is in the first line, the rest of which has no line feed but the one at its end.
      have hsize : m < size ([] ++ [e]) := by
        rw [List.nil_append, size_cons]
        exact Nat.lt_add_right _ hline
      refine ⟨[], e, es, rfl, Nat.zero_le m, hsize, ?_⟩
      obtain ⟨bytes, hbytes, hfeed⟩ := exists_lineBytes e
      rw [hbytes, List.length_append, List.length_singleton] at hline
      rw [List.flatMap_cons, hbytes, List.append_assoc, List.drop_append_of_le_length (by omega)]
      rw [List.dropWhile_append_of_pos]
      · simp
      · intro b hb
        have hne : b ≠ 10 := by
          rintro rfl
          exact hfeed (List.mem_of_mem_drop hb)
        simpa using hne
    · obtain ⟨before, f, after, rfl, hbefore, hafter, hdrop⟩ :=
        ih (m := m - (lineBytes e).length) (by omega)
      refine ⟨e :: before, f, after, rfl, ?_, ?_, ?_⟩
      · rw [size_cons]
        omega
      · rw [List.cons_append, size_cons]
        omega
      · rw [List.flatMap_cons, List.drop_append, List.drop_of_length_le (by omega), List.nil_append,
          hdrop]

/-- Whether events are what is read of events that were written if the last `n` bytes are looked at:
all of them if there are no more bytes, and otherwise, from the end, the events whose lines start
strictly after the first of these bytes. -/
structure IsTail (n : ℕ) (written segment : List Event) : Prop where
  isEnd : segment <:+ written
  eq_of_le : size written ≤ n → segment = written
  start_iff : n < size written → ∀ before e after, written = before ++ e :: after →
    (e :: after <:+ segment ↔ size written - n < size before)

/-- What follows the line with a byte in it are the events whose lines start after this byte. -/
theorem isSuffix_iff_of_between {m : ℕ} {before after before' after' : List Event} {e f : Event}
    (hbefore : size before ≤ m) (hafter : m < size (before ++ [e]))
    (h : before ++ e :: after = before' ++ f :: after') :
    f :: after' <:+ after ↔ m < size before' := by
  have hwhole : before ++ e :: after = (before ++ [e]) ++ after := List.append_cons before e after
  have hlength := congrArg List.length h
  simp only [List.length_append, List.length_cons] at hlength
  rcases Nat.lt_or_ge before.length before'.length with hlt | hge
  · have hprefix : before ++ [e] <+: before' := by
      refine List.prefix_of_prefix_length_le ⟨after, hwhole.symm⟩ ⟨f :: after', h.symm⟩ ?_
      rwa [List.length_append, List.length_singleton]
    have hsuffix : f :: after' <:+ after := by
      refine List.suffix_of_suffix_length_le ⟨before', h.symm⟩ ⟨before ++ [e], hwhole.symm⟩ ?_
      rw [List.length_cons]
      omega
    exact iff_of_true hsuffix (Nat.lt_of_lt_of_le hafter (size_le_of_isPrefix hprefix))
  · have hprefix : before' <+: before :=
      List.prefix_of_prefix_length_le ⟨f :: after', h.symm⟩ ⟨e :: after, rfl⟩ hge
    refine iff_of_false (fun hsuffix => ?_) (Nat.not_lt.mpr ?_)
    · have hle := hsuffix.length_le
      rw [List.length_cons] at hle
      omega
    · exact Nat.le_trans (size_le_of_isPrefix hprefix) hbefore

/-- What is left of a file are the lines of a tail of its events. -/
theorem exists_tail {n : ℕ} (hn : 1 ≤ n) (es : List Event) :
    ∃ segment, IsTail n es segment ∧ tail n (es.flatMap lineBytes) = segment.flatMap lineBytes := by
  unfold tail
  by_cases hsize : size es ≤ n
  · refine ⟨es, ⟨List.suffix_refl es, fun _ => rfl, fun h => absurd hsize (Nat.not_le.mpr h)⟩, ?_⟩
    exact if_pos hsize
  · obtain ⟨before, e, after, rfl, hbefore, hafter, hdrop⟩ :=
      exists_dropWhile (show size es - n < size es by omega)
    refine ⟨after, ⟨?_, fun h => absurd h hsize, ?_⟩, ?_⟩
    · exact (List.suffix_cons e after).trans (List.suffix_append before _)
    · exact fun _ before' f after' h => isSuffix_iff_of_between hbefore hafter h
    · unfold size at hsize hdrop
      rw [if_neg hsize]
      simp only [hdrop]

end Journal

end PayrollFormula
