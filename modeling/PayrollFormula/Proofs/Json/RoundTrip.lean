import Mathlib.Data.List.Basic
import PayrollFormula.Json.Read
import PayrollFormula.Proofs.Json.Arranged
import PayrollFormula.Proofs.Json.Extent
import PayrollFormula.Proofs.Json.Numbers
import PayrollFormula.Proofs.Json.Texts

/-!
# What is written is read back

The written form of a value is a line of printable ASCII characters (`isShown_write`), and reading
it gives the value with its fields in order (`read_write`), unless the value has something in it
that JSON has no form for.

The reader takes the characters of a value in a row wherever a value may start, whatever comes
after it: `readFrom` continues reading from a state of the reader, and each written piece takes it
from one state to the next.
-/

set_option autoImplicit false

namespace PayrollFormula

namespace Json

open Numeral

/-! ## Written pieces -/

/-- Written parts that follow others, each after a comma. -/
def following (parts : List (List Char)) : List Char := parts.flatMap fun p => ',' :: ' ' :: p

/-- The first of several parts that follow stands after a comma and a blank. -/
theorem following_cons_append (part : List Char) (parts : List (List Char)) (rest : List Char) :
    following (part :: parts) ++ rest = ',' :: ' ' :: (part ++ (following parts ++ rest)) := by
  simp [following]

/-- Joined parts are the first and the others after it. -/
theorem joined_cons (part : List Char) (parts : List (List Char)) :
    joined (part :: parts) = part ++ following parts := by
  unfold joined following
  induction parts generalizing part with
  | nil => simp
  | cons p parts ih =>
    rw [List.intercalate_cons_cons, ih, List.flatMap_cons, List.append_assoc]
    rfl

/-- Elements are written one by one. -/
theorem writeItems_eq_map (vs : List Value) : writeItems vs = vs.map write := by
  induction vs with
  | nil => rfl
  | cons v vs ih => rw [writeItems, ih, List.map_cons]

/-- The values of fields are written one by one. -/
theorem writeFields_eq_map (fs : Fields) :
    writeFields fs = fs.map fun f => (f.1, write f.2) := by
  induction fs with
  | nil => rfl
  | cons f fs ih => rw [writeFields, ih, List.map_cons]

/-- A record is written field by field in the order of the names. -/
theorem write_record (fs : Fields) :
    write (.record fs) = '\x7b' :: (joined (fs.sorted.map fun f => writeField (f.1, write f.2))
      ++ ['\x7d']) := by
  have horder : inOrder (writeFields fs) = fs.sorted.map fun f => (f.1, write f.2) := by
    rw [writeFields_eq_map]
    exact (List.map_mergeSort (f := fun f : String × Value => (f.1, write f.2))
      fun _ _ _ _ => rfl).symm
  rw [write, horder, List.map_map]
  rfl

/-- A list is written as its elements between brackets. -/
theorem write_list (vs : List Value) :
    write (.list vs) = '[' :: (joined (vs.map write) ++ [']']) := by
  rw [write, writeItems_eq_map]

/-! ## Reading from a state -/

/-- Reads a text as what is left of a JSON value. -/
def readFrom (s : State) (cs : List Char) : Except ReadError Value :=
  match run s (scan cs).1 with
  | .error e => .error e
  | .ok s => if (scan cs).2 then finish s else .error .malformed

/-- A scan goes on after what is skipped. -/
theorem scanFrom_append (skipped rest : List Char) :
    scanFrom skipped.length (skipped ++ rest) = scan rest := by
  induction skipped with
  | nil => rfl
  | cons c cs ih => exact ih

/-- No token starts with a blank. -/
theorem isSpace_eq_false_of_lexeme {c : Char} {cs : List Char} {p : Token × ℕ}
    (h : lexeme? (c :: cs) = some p) : isSpace c = false := by
  by_contra hspace
  simp only [isSpace, Bool.not_eq_false, Bool.or_eq_true, decide_eq_true_eq] at hspace
  rcases hspace with ((rfl | rfl) | rfl) | rfl <;> cases h

/-- A piece of text that is one token takes the reader to the next state. -/
theorem readFrom_token {s s' : State} {t : Token} {piece : List Char} (hne : piece ≠ [])
    {rest : List Char} (hlexeme : lexeme? (piece ++ rest) = some (t, piece.length))
    (hfeed : feed s t = .ok s') : readFrom s (piece ++ rest) = readFrom s' rest := by
  obtain ⟨c, cs, rfl⟩ := List.exists_cons_of_ne_nil hne
  have hscan : scan (c :: cs ++ rest) = (t :: (scan rest).1, (scan rest).2) := by
    have hspace := isSpace_eq_false_of_lexeme hlexeme
    rw [List.cons_append] at hlexeme ⊢
    rw [scan, scanFrom]
    simp only [hspace, Bool.false_eq_true, if_false, hlexeme, List.length_cons,
      Nat.add_sub_cancel, scanFrom_append]
  unfold readFrom
  rw [hscan]
  simp only [run, hfeed]

/-- A blank is skipped. -/
theorem readFrom_space (s : State) (cs : List Char) :
    readFrom s (' ' :: cs) = readFrom s cs := rfl

/-- A character that is a token by itself takes the reader to the next state. -/
theorem readFrom_mark {s s' : State} (c : Char) (t : Token)
    (hmark : ∀ cs, lexeme? (c :: cs) = some (t, 1)) (hfeed : feed s t = .ok s')
    (rest : List Char) : readFrom s (c :: rest) = readFrom s' rest :=
  readFrom_token (List.cons_ne_nil c []) (hmark rest) hfeed

/-! ## Values -/

/-- Whether a value may start in a state of the reader. -/
def Starts (s : State) : Prop := ∀ t, t ≠ .closeBracket → feed s t = readStart s.frames t

/-- A value may start where one is expected. -/
theorem starts_value (frames : List Frame) : Starts ⟨frames, .value⟩ := fun _ _ => rfl

/-- A value may start as the first element of a list. -/
theorem starts_firstItem (frames : List Frame) : Starts ⟨frames, .firstItem⟩ := by
  intro t ht
  cases t with
  | closeBracket => exact absurd rfl ht
  | _ => rfl

/-- Whether the written form of a value is read as the value with its fields in order, wherever as
many lists and records are open as given and a value may start. -/
def ReadsBack (depth : ℕ) (v : Value) : Prop :=
  ∀ (s : State) (rest : List Char), s.frames.length = depth → Starts s → Stops continues rest →
    readFrom s (write v ++ rest) = readFrom ⟨s.frames, .complete v.arranged⟩ rest

/-- A value that is written as one token is read back. -/
theorem readsBack_of_lexeme {depth : ℕ} {v : Value} {t : Token}
    (hlexeme : ∀ rest, Stops continues rest →
      lexeme? (write v ++ rest) = some (t, (write v).length))
    (hstart : ∀ frames, readStart frames t = .ok ⟨frames, .complete v.arranged⟩)
    (ht : t ≠ .closeBracket) : ReadsBack depth v := by
  intro s rest _ hs hrest
  have hne : write v ≠ [] := by
    intro hnil
    have hnone := hlexeme [] (stops_nil _)
    rw [hnil] at hnone
    cases hnone
  exact readFrom_token hne (hlexeme rest hrest) ((hs t ht).trans (hstart s.frames))

/-- Neither a comma nor a closing bracket or brace continues a numeral. -/
theorem stops_parts (close : Char) (hclose : continues close = false) (parts : List (List Char))
    (rest : List Char) :
    Stops continues (following parts ++ close :: rest) := by
  cases parts with
  | nil => exact (stops_cons _ _ _).mpr hclose
  | cons part parts => exact (stops_cons _ _ _).mpr (by decide)

/-- The elements of a list after the first are read back one by one. -/
theorem readFrom_items {frames : List Frame} {vs : List Value}
    (hvs : ∀ v ∈ vs, ReadsBack (frames.length + 1) v) (done : List Value) (v : Value)
    (rest : List Char) :
    readFrom ⟨.list done :: frames, .complete v⟩
        (following (vs.map write) ++ ']' :: rest) =
      readFrom ⟨frames, .complete (.list (done.reverse ++ v :: vs.map Value.arranged))⟩ rest := by
  induction vs generalizing done v with
  | nil =>
    refine (readFrom_mark ']' .closeBracket (fun _ => rfl) rfl rest).trans ?_
    rw [List.reverse_cons]
    rfl
  | cons w vs ih =>
    obtain ⟨hw, hvs⟩ := List.forall_mem_cons.mp hvs
    have hstops := stops_parts ']' (by decide) (vs.map write) rest
    rw [List.map_cons, following_cons_append, readFrom_mark ',' .comma (fun _ => rfl) rfl,
      readFrom_space]
    rw [hw ⟨.list (v :: done) :: frames, .value⟩ _ rfl (starts_value _) hstops]
    rw [ih hvs, List.reverse_cons, List.append_assoc]
    rfl

/-- A list is read back if its elements are. -/
theorem readsBack_list {depth : ℕ} {vs : List Value} (hdepth : depth < maxOpen)
    (hvs : ∀ v ∈ vs, ReadsBack (depth + 1) v) : ReadsBack depth (.list vs) := by
  rintro s rest rfl hs hrest
  have hopen : feed s .openBracket = .ok ⟨.list [] :: s.frames, .firstItem⟩ := by
    rw [hs _ (by simp), readStart, readOpening, if_pos hdepth]
  rw [write_list, List.cons_append, readFrom_mark '[' .openBracket (fun _ => rfl) hopen,
    List.append_assoc, Value.arranged_list]
  cases vs with
  | nil => exact readFrom_mark ']' .closeBracket (fun _ => rfl) rfl rest
  | cons v vs =>
    obtain ⟨hv, hvs⟩ := List.forall_mem_cons.mp hvs
    have hstops := stops_parts ']' (by decide) (vs.map write) rest
    rw [List.map_cons, joined_cons, List.append_assoc, List.singleton_append]
    rw [hv ⟨.list [] :: s.frames, .firstItem⟩ _ rfl (starts_firstItem _) hstops]
    exact readFrom_items hvs [] _ rest

/-- A field is read back where a name may stand. -/
theorem readFrom_field {s : State} {done : Fields} {f : String × Value}
    (hf : ReadsBack (s.frames.length + 1) f.2)
    (hs : feed s (.text f.1) = .ok ⟨s.frames, .afterName done f.1⟩) {rest : List Char}
    (hrest : Stops continues rest) :
    readFrom s (writeField (f.1, write f.2) ++ rest) =
      readFrom ⟨.record done f.1 :: s.frames, .complete f.2.arranged⟩ rest := by
  rw [writeField, List.append_assoc, readFrom_token (by simp [writeText]) (lexeme_writeText _ _) hs,
    List.cons_append, List.cons_append, readFrom_mark ':' .colon (fun _ => rfl) rfl, readFrom_space]
  exact hf _ rest rfl (starts_value _) hrest

/-- The fields of a record after the first are read back one by one. -/
theorem readFrom_fields {frames : List Frame} {fs : Fields}
    (hfs : ∀ f ∈ fs, ReadsBack (frames.length + 1) f.2) (done : Fields) (name : String) (v : Value)
    (rest : List Char) :
    readFrom ⟨.record done name :: frames, .complete v⟩
        (following (fs.map fun f => writeField (f.1, write f.2)) ++ '\x7d' :: rest) =
      readFrom ⟨frames, .complete (.record ((Fields.set name v done).update
        (fs.map fun f => (f.1, f.2.arranged))))⟩ rest := by
  induction fs generalizing done name v with
  | nil => exact readFrom_mark '\x7d' .closeBrace (fun _ => rfl) rfl rest
  | cons f fs ih =>
    obtain ⟨hf, hfs⟩ := List.forall_mem_cons.mp hfs
    have hstops := stops_parts '\x7d' (by decide)
      (fs.map fun f => writeField (f.1, write f.2)) rest
    rw [List.map_cons, following_cons_append, readFrom_mark ',' .comma (fun _ => rfl) rfl,
      readFrom_space]
    rw [readFrom_field (s := ⟨frames, .nextName (Fields.set name v done)⟩) hf rfl hstops]
    rw [ih hfs]
    rfl

/-- A record is read back, with its fields in order, if the values of its fields are. -/
theorem readsBack_record {depth : ℕ} {fs : Fields} (hdepth : depth < maxOpen)
    (hnodup : fs.names.Nodup) (hfs : ∀ f ∈ fs, ReadsBack (depth + 1) f.2) :
    ReadsBack depth (.record fs) := by
  rintro s rest rfl hs hrest
  have hopen : feed s .openBrace = .ok ⟨s.frames, .firstName⟩ := by
    rw [hs _ (by simp), readStart, readOpening, if_pos hdepth]
  have hsorted : ∀ f ∈ fs.sorted, ReadsBack (s.frames.length + 1) f.2 :=
    fun f hf => hfs f (Fields.mem_sorted.mp hf)
  have hnames : (Fields.names (fs.sorted.map fun f => (f.1, f.2.arranged))).Nodup := by
    rw [Fields.names_map]
    exact ((fs.sorted_perm.map Prod.fst).nodup_iff).mpr hnodup
  rw [write_record, List.cons_append, readFrom_mark '\x7b' .openBrace (fun _ => rfl) hopen,
    List.append_assoc, Value.arranged_record]
  generalize fs.sorted = gs at hsorted hnames ⊢
  cases gs with
  | nil => exact readFrom_mark '\x7d' .closeBrace (fun _ => rfl) rfl rest
  | cons g gs =>
    obtain ⟨hg, hgs⟩ := List.forall_mem_cons.mp hsorted
    have hstops := stops_parts '\x7d' (by decide)
      (gs.map fun f => writeField (f.1, write f.2)) rest
    rw [List.map_cons, joined_cons, List.append_assoc, List.singleton_append]
    rw [readFrom_field (s := ⟨s.frames, .firstName⟩) hg rfl hstops, readFrom_fields hgs]
    have hupdate : Fields.update [] ((g :: gs).map fun f => (f.1, f.2.arranged)) =
        (g :: gs).map fun f => (f.1, f.2.arranged) := Fields.update_of_nodup hnames
    exact congrArg (fun fields => readFrom ⟨s.frames, .complete (.record fields)⟩ rest) hupdate

/-! ## Values that JSON has a form for -/

/-- Whether a value, its parts aside, has a form in JSON: it is no number that is not finite, no
decimal or rational number, and no record with two fields of one name. -/
def IsPlain : Value → Prop
  | .double x => x.isFinite = true
  | .decimal _ | .fraction _ => False
  | .record fs => (Fields.names fs).Nodup
  | _ => True

/-- Putting fields in order leaves a value the same that has a form in JSON throughout. -/
theorem same_arranged_of_isPlain {v : Value} (hplain : v.Everywhere IsPlain) :
    Value.Same v.arranged v := by
  refine Value.same_arranged fun w hw => ?_
  have hself := hplain w hw
  cases w with
  | record fs => exact hself
  | _ => trivial

/-- A value without parts is read back from its text. -/
theorem readsBack_atom (depth : ℕ) {v : Value} (hatom : v.isAtom = true) (hplain : IsPlain v)
    (hshort : hasLongInteger v = false) : ReadsBack depth v := by
  cases v with
  | list | record => cases hatom
  | decimal | fraction => cases hplain
  | null => exact readsBack_of_lexeme (fun _ _ => rfl) (fun _ => rfl) (by simp)
  | bool b =>
    cases b with
    | true => exact readsBack_of_lexeme (fun _ _ => rfl) (fun _ => rfl) (by simp)
    | false => exact readsBack_of_lexeme (fun _ _ => rfl) (fun _ => rfl) (by simp)
  | int i =>
    exact readsBack_of_lexeme (fun _ hrest => lexeme_int hshort hrest) (fun _ => rfl) (by simp)
  | double x =>
    obtain ⟨y, rfl⟩ : ∃ y, x = .finite y := by
      cases x with
      | finite y => exact ⟨y, rfl⟩
      | infinite | nan => cases hplain
    exact readsBack_of_lexeme (fun _ hrest => lexeme_double y hrest) (fun _ => rfl) (by simp)
  | text s =>
    exact readsBack_of_lexeme (fun _ _ => lexeme_writeText s _) (fun _ => rfl) (by simp)

/-- A value that has a form in JSON, no long integer and not too many levels is read back from its
text. -/
theorem readsBack {depth : ℕ} {v : Value} (hplain : v.Everywhere IsPlain)
    (hshort : hasLongInteger v = false) (hdepth : depth + levels v ≤ maxOpen) :
    ReadsBack depth v := by
  induction v using Value.induction generalizing depth with
  | atom v hatom =>
    exact readsBack_atom depth hatom ((Value.everywhere_atom hatom).mp hplain) hshort
  | list vs ih =>
    obtain ⟨-, hparts⟩ := Value.everywhere_list.mp hplain
    rw [hasLongInteger, itemsHaveLongInteger_eq_false_iff] at hshort
    rw [levels] at hdepth
    refine readsBack_list (by omega) fun v hv => ih v hv (hparts v hv) (hshort v hv) ?_
    have hlevels := itemLevels_le_iff.mp (Nat.le_refl _) v hv
    omega
  | record fs ih =>
    obtain ⟨hnodup, hparts⟩ := Value.everywhere_record.mp hplain
    rw [hasLongInteger, fieldsHaveLongInteger_eq_false_iff] at hshort
    rw [levels] at hdepth
    refine readsBack_record (by omega) hnodup fun f hf => ih f hf (hparts f hf) (hshort f hf) ?_
    have hlevels := fieldLevels_le_iff.mp (Nat.le_refl _) f hf
    omega

/-- What is written is read back, with its fields in order. -/
theorem read_write {v : Value} (hplain : v.Everywhere IsPlain) (hshort : hasLongInteger v = false)
    (hlevels : levels v ≤ maxOpen) : read (write v) = .ok v.arranged := by
  have hback : ReadsBack 0 v := readsBack hplain hshort (by omega)
  have hread := hback initial [] rfl (starts_value []) (stops_nil _)
  rw [List.append_nil] at hread
  exact hread

/-! ## Characters that are written -/

/-- Joined parts are printable if each is. -/
theorem isShown_joined {parts : List (List Char)} (h : ∀ part ∈ parts, ∀ c ∈ part, IsShown c) :
    ∀ c ∈ joined parts, IsShown c := by
  cases parts with
  | nil => exact List.forall_mem_nil _
  | cons part parts =>
    obtain ⟨hpart, hparts⟩ := List.forall_mem_cons.mp h
    rw [joined_cons, List.forall_mem_append]
    refine ⟨hpart, fun c hc => ?_⟩
    obtain ⟨p, hp, hc⟩ := List.mem_flatMap.mp hc
    rcases List.mem_cons.mp hc with rfl | hc
    · decide
    · rcases List.mem_cons.mp hc with rfl | hc
      · decide
      · exact hparts p hp c hc

/-- The text of a double is printable. -/
theorem isShown_writeDouble (x : Double) : ∀ c ∈ writeDouble x, IsShown c := by
  have hnull : ∀ c ∈ ['n', 'u', 'l', 'l'], IsShown c := isShown_of_all (by decide)
  cases x with
  | infinite | nan => exact hnull
  | finite x =>
    obtain ⟨p, htext, hp, -, -⟩ := x.exists_standard_text
    rw [writeDouble, htext]
    exact isShown_signed hp.proper _

/-- All characters of a written value are printable ones of ASCII. -/
theorem isShown_write (v : Value) : ∀ c ∈ write v, IsShown c := by
  induction v using Value.induction with
  | atom v hatom =>
    cases v with
    | list | record => cases hatom
    | null => exact isShown_of_all (by decide)
    | bool b => cases b <;> exact isShown_of_all (by decide)
    | int i =>
      rw [write, toList_toString]
      exact isShown_signed (standard_integerParts i).proper _
    | double x => exact isShown_writeDouble x
    | decimal d => exact isShown_writeText _
    | fraction q => exact isShown_writeText _
    | text s => exact isShown_writeText s
  | list vs ih =>
    have hjoined : ∀ c ∈ joined (vs.map write), IsShown c := by
      refine isShown_joined fun part hpart => ?_
      obtain ⟨v, hv, rfl⟩ := List.mem_map.mp hpart
      exact ih v hv
    rw [write_list, List.forall_mem_cons, List.forall_mem_append, List.forall_mem_singleton]
    exact ⟨by decide, hjoined, by decide⟩
  | record fs ih =>
    have hjoined :
        ∀ c ∈ joined (fs.sorted.map fun f => writeField (f.1, write f.2)), IsShown c := by
      refine isShown_joined fun part hpart => ?_
      obtain ⟨f, hf, rfl⟩ := List.mem_map.mp hpart
      rw [writeField, List.forall_mem_append, List.forall_mem_cons, List.forall_mem_cons]
      exact ⟨isShown_writeText f.1, by decide, by decide, ih f (Fields.mem_sorted.mp hf)⟩
    rw [write_record, List.forall_mem_cons, List.forall_mem_append, List.forall_mem_singleton]
    exact ⟨by decide, hjoined, by decide⟩

end Json

end PayrollFormula
