import PayrollFormula.Proofs.Formula.Accepted
import PayrollFormula.Proofs.Formula.Canonical

/-!
# Reading the canonical text of a formula

The canonical text of a formula with proper names is read as the tree that `Expr.reread` gives
(`parse_text`). For a well-formed formula that is the same formula (`WellFormed.same_reread`), and
for one that was read from a text it is the very tree (`reread_eq_self`).
-/

set_option autoImplicit false

namespace PayrollFormula

open Grammar

/-- A number that is not below zero is its own magnitude. -/
theorem Finite.ticks_abs {x : Finite} (h : 0 ≤ x.ticks) : x.abs.ticks = x.ticks := by
  have habs : x.abs.ticks = x.magnitude := rfl
  rw [habs]
  unfold Finite.ticks at h ⊢
  split_ifs at h ⊢
  · omega
  · rfl

namespace Expr

/-! ## Well-formed formulas -/

/-- Whether a node can stand in a text: a number is not below zero, a variable has a name, and a
function has one in upper case. -/
def IsWellFormedNode : Expr → Prop
  | .literal x => 0 ≤ x.ticks
  | .variable name => IsIdentifier name.toList
  | .call name _ => IsIdentifier name.toList ∧ upperCase name = name
  | _ => True

/-- Whether all nodes of a formula can stand in a text. -/
def WellFormed (e : Expr) : Prop := e.Everywhere IsWellFormedNode

/-- The nodes of a formula that is well formed have names that name something. -/
theorem WellFormed.named {e : Expr} (h : e.WellFormed) : e.Everywhere IsNamed := by
  refine h.mono fun n hn => ?_
  cases n with
  | call => exact hn.1
  | literal => trivial
  | _ => exact hn

/-- Whether a node is one that reading a text gives: the numbers have no minus sign. -/
def IsPlain : Expr → Prop
  | .literal x => x.negative = false
  | n => n.IsWellFormedNode

/-- A formula of plain nodes is well formed. -/
theorem wellFormed_of_plain {e : Expr} (h : e.Everywhere IsPlain) : e.WellFormed := by
  refine h.mono fun n hn => ?_
  cases n with
  | literal x =>
    have hsign : x.negative = false := hn
    simp [IsWellFormedNode, Finite.ticks, hsign]
  | _ => exact hn

/-- Several formulas are read again one by one. -/
theorem rereadAll_eq_map (es : List Expr) : rereadAll es = es.map reread := by
  induction es with
  | nil => rfl
  | cons e es ih => rw [rereadAll, ih, List.map_cons]

/-- If no formula changes its height, the greatest height stays. -/
theorem greatestHeight_map {f : Expr → Expr} {es : List Expr}
    (h : ∀ e ∈ es, (f e).height = e.height) : greatestHeight (es.map f) = greatestHeight es := by
  induction es with
  | nil => rfl
  | cons e es ih =>
    rw [List.map_cons, greatestHeight, greatestHeight, h e List.mem_cons_self,
      ih fun a ha => h a (List.mem_cons_of_mem e ha)]

/-- A formula that is well formed is as high when it is read again. -/
theorem WellFormed.height_reread {e : Expr} (h : e.WellFormed) : e.reread.height = e.height := by
  induction e using Expr.induction with
  | literal x =>
    have hx : 0 ≤ x.ticks := (everywhere_literal _ _).mp h
    rw [reread, if_neg (not_lt.mpr hx), height, height]
  | named name => rfl
  | unary op a iha =>
    have ha := ((everywhere_unary _ _ _).mp h).2
    rw [reread, height, height, iha ha]
  | binary op a b iha ihb =>
    obtain ⟨-, ha, hb⟩ := (everywhere_binary _ _ _ _).mp h
    rw [reread, height, height, iha ha, ihb hb]
  | choice c a b ihc iha ihb =>
    obtain ⟨-, hc, ha, hb⟩ := (everywhere_choice _ _ _ _).mp h
    rw [reread, height, height, ihc hc, iha ha, ihb hb]
  | call name args ih =>
    have hargs := ((everywhere_call _ _ _).mp h).2
    rw [reread, callNamed, height, height, rereadAll_eq_map,
      greatestHeight_map fun a ha => ih a ha (hargs a ha)]

/-- If each formula stays the same, all do. -/
theorem sameAll_map {f : Expr → Expr} {es : List Expr} (h : ∀ e ∈ es, (f e).same e = true) :
    sameAll (es.map f) es = true := by
  induction es with
  | nil => simp [sameAll]
  | cons e es ih =>
    simp [sameAll, h e List.mem_cons_self, ih fun a ha => h a (List.mem_cons_of_mem e ha)]

/-- A well-formed formula is the same as the tree of its canonical text. -/
theorem WellFormed.same_reread {e : Expr} (h : e.WellFormed) : e.reread.same e = true := by
  induction e using Expr.induction with
  | literal x =>
    have hx : 0 ≤ x.ticks := (everywhere_literal _ _).mp h
    rw [reread, if_neg (not_lt.mpr hx)]
    simp [same, Finite.ticks_abs hx]
  | named name => simp [reread, same]
  | unary op a iha =>
    have ha := ((everywhere_unary _ _ _).mp h).2
    simp [reread, same, iha ha]
  | binary op a b iha ihb =>
    obtain ⟨-, ha, hb⟩ := (everywhere_binary _ _ _ _).mp h
    simp [reread, same, iha ha, ihb hb]
  | choice c a b ihc iha ihb =>
    obtain ⟨-, hc, ha, hb⟩ := (everywhere_choice _ _ _ _).mp h
    simp [reread, same, ihc hc, iha ha, ihb hb]
  | call name args ih =>
    obtain ⟨hname, hargs⟩ := (everywhere_call _ _ _).mp h
    have hupper : upperCase name = name := hname.2
    rw [reread, callNamed, rereadAll_eq_map, hupper]
    simp [same, sameAll_map fun a ha => ih a ha (hargs a ha)]

/-- A formula that is read from a text is the tree of its canonical text. -/
theorem reread_eq_self {e : Expr} (h : e.Everywhere IsPlain) : e.reread = e := by
  induction e using Expr.induction with
  | literal x =>
    have hsign : x.negative = false := (everywhere_literal _ _).mp h
    have hx : ¬ x.ticks < 0 := by simp [Finite.ticks, hsign]
    have habs : x.abs = x := by
      unfold Finite.abs
      rw [← hsign]
    rw [reread, if_neg hx, habs]
  | named name => rfl
  | unary op a iha =>
    rw [reread, iha ((everywhere_unary _ _ _).mp h).2]
  | binary op a b iha ihb =>
    obtain ⟨-, ha, hb⟩ := (everywhere_binary _ _ _ _).mp h
    rw [reread, iha ha, ihb hb]
  | choice c a b ihc iha ihb =>
    obtain ⟨-, hc, ha, hb⟩ := (everywhere_choice _ _ _ _).mp h
    rw [reread, ihc hc, iha ha, ihb hb]
  | call name args ih =>
    obtain ⟨hname, hargs⟩ := (everywhere_call _ _ _).mp h
    have hupper : upperCase name = name := hname.2
    rw [reread, callNamed, rereadAll_eq_map, hupper, List.map_congr_left (g := id)
      fun a ha => ih a ha (hargs a ha), List.map_id]

end Expr

/-- No numeral has a minus sign. -/
theorem negative_eq_false_of_number? {t : Token} {x : Finite} (h : t.number? = some x) :
    x.negative = false := by
  unfold Token.number? at h
  cases hread : Numeral.read t.chars with
  | none => simp [hread] at h
  | some n =>
    simp only [hread, Numeral.toDouble, Double.ofRank] at h
    split_ifs at h
    cases h
    rfl

/-- A call of an identifier with plain arguments is plain. -/
theorem everywhere_callNamed {f : Token} {args : List Expr} (hf : IsIdentifier f.chars)
    (hargs : ∀ a ∈ args, a.Everywhere Expr.IsPlain) :
    (Expr.callNamed f.text args).Everywhere Expr.IsPlain := by
  have hname : IsIdentifier f.text.toList := by rwa [Token.text, String.toList_ofList]
  rw [Expr.callNamed, Expr.everywhere_call]
  exact ⟨⟨isIdentifier_upperCase hname, upperCase_upperCase hname⟩, hargs⟩

/-- A phrase whose names name something has a tree that reading a text gives. -/
theorem Grammar.Derives.plain {c : Category} {ts : List Token} {e : Expr} (h : Derives c ts e)
    (hts : ProperNames ts) : e.Everywhere Expr.IsPlain := by
  revert hts
  induction h using Derives.rec (motive_2 := fun ts args _ =>
    ProperNames ts → ∀ a ∈ args, a.Everywhere Expr.IsPlain) with
  | tighter _ _ ih => exact ih
  | choice _ _ _ _ _ ihc iha ihb =>
    intro hts
    simp only [properNames_append, properNames_cons] at hts
    obtain ⟨hc, -, ha, -, hb⟩ := hts
    exact (Expr.everywhere_choice _ _ _ _).mpr ⟨trivial, ihc hc, iha ha, ihb hb⟩
  | binary _ _ _ iha ihb =>
    intro hts
    simp only [properNames_append, properNames_cons] at hts
    obtain ⟨ha, -, hb⟩ := hts
    exact (Expr.everywhere_binary _ _ _ _).mpr ⟨trivial, iha ha, ihb hb⟩
  | not _ _ ih | neg _ _ ih =>
    intro hts
    exact (Expr.everywhere_unary _ _ _).mpr ⟨trivial, ih ((properNames_cons _ _).mp hts).2⟩
  | number _ hx =>
    intro _
    exact (Expr.everywhere_literal _ _).mpr (negative_eq_false_of_number? hx)
  | @named t hk =>
    intro hts
    have ht := ((properNames_cons _ _).mp hts).1 hk
    rw [Expr.everywhere_variable, Expr.IsPlain]
    · rwa [Expr.IsWellFormedNode, Token.text, String.toList_ofList]
    · simp
  | group _ _ _ ih =>
    intro hts
    simp only [properNames_append, properNames_cons] at hts
    exact ih hts.2.1
  | callNone hf =>
    intro hts
    exact everywhere_callNamed (((properNames_cons _ _).mp hts).1 hf) (by simp)
  | callSome hf _ _ _ ih =>
    intro hts
    simp only [properNames_append, properNames_cons] at hts
    obtain ⟨hname, -, hargs, -⟩ := hts
    exact everywhere_callNamed (hname hf) (ih hargs)
  | last _ ih hts a ha =>
    obtain rfl := List.mem_singleton.mp ha
    exact ih hts
  | more _ _ _ iha ih hts a ha =>
    simp only [properNames_append, properNames_cons] at hts
    rcases List.mem_cons.mp ha with rfl | ha
    · exact iha hts.1
    · exact ih hts.2.2 a ha

namespace Formula

/-! ## The round trip -/

/-- A text that is a phrase wherever it stands is not blank and has the tree of the phrase. -/
theorem tree_of_reads {cs : List Char} {level : ℕ} {e : Expr} (h : Reads cs level e)
    (hlevel : 1 ≤ level) : strip cs ≠ [] ∧ tree cs = .ok e := by
  obtain ⟨ts, hcut, hderives⟩ := h 0 [] [] (stops_nil _) (.nil _)
  rw [List.append_nil, List.append_nil] at hcut
  have hternary := hderives .ternary hlevel
  rw [tree_eq_ok_iff]
  refine ⟨?_, ts, scan_eq_iff.mpr hcut, hternary⟩
  intro hstrip
  obtain ⟨t, rest, rfl, -⟩ := hternary.exists_cons
  cases hcut.eq_nil_of_blank (strip_eq_nil_iff.mp hstrip)

/-- The canonical text of a formula with proper names is not blank and has the formula's tree. -/
theorem tree_text {e : Expr} (h : e.Everywhere Expr.IsNamed) :
    strip e.text.toList ≠ [] ∧ tree e.text.toList = .ok e.reread := by
  have hchars : e.text.toList = e.chars := String.toList_ofList
  rw [hchars]
  exact tree_of_reads (Expr.reads_chars h) (Expr.one_le_level e)

/-- The canonical text of a formula with proper names is read as its tree, if the limits admit
both. -/
theorem parse_text {limits : Limits} {e : Expr} (h : e.Everywhere Expr.IsNamed)
    (hdepth : e.reread.depth ≤ limits.maxDepth) (hlength : e.text.length ≤ limits.maxLength) :
    parse limits e.text = .ok e.reread := by
  obtain ⟨hblank, htree⟩ := tree_text h
  exact parse_eq_ok_iff_tree.mpr ⟨hblank, hlength, htree, hdepth⟩

/-- A formula that is read from a text has no number with a minus sign, and proper names. -/
theorem plain_of_parse {limits : Limits} {text : String} {e : Expr}
    (h : parse limits text = .ok e) : e.Everywhere Expr.IsPlain := by
  obtain ⟨-, -, htree, -⟩ := parse_eq_ok_iff_tree.mp h
  obtain ⟨ts, hscan, hderives⟩ := tree_eq_ok_iff.mp htree
  exact hderives.plain (scan_eq_iff.mp hscan).properNames

/-- The canonical text of a well-formed formula is read as the same formula, every formula that is
read is well-formed, and its canonical text is read as the very same tree. -/
theorem parse_text_same :
    (∀ (limits : Limits) (e : Expr), e.WellFormed → e.depth ≤ limits.maxDepth →
      e.text.length ≤ limits.maxLength →
        ∃ e', parse limits e.text = .ok e' ∧ e'.same e = true) ∧
      ∀ (limits : Limits) (text : String) (e : Expr), parse limits text = .ok e →
        e.WellFormed ∧ ∀ limits' : Limits, e.depth ≤ limits'.maxDepth →
          e.text.length ≤ limits'.maxLength → parse limits' e.text = .ok e := by
  constructor
  · intro limits e h hdepth hlength
    have hreread : e.reread.depth ≤ limits.maxDepth := by
      rwa [Expr.depth_eq_height, h.height_reread, ← Expr.depth_eq_height]
    exact ⟨e.reread, parse_text h.named hreread hlength, h.same_reread⟩
  · intro limits text e h
    have hplain := plain_of_parse h
    have hwell := Expr.wellFormed_of_plain hplain
    have hself := Expr.reread_eq_self hplain
    refine ⟨hwell, fun limits' hdepth hlength => ?_⟩
    have hread : parse limits' e.text = .ok e.reread :=
      parse_text hwell.named (by rwa [hself]) hlength
    rwa [hself] at hread

/-- The parentheses around a right operand are written, and read back as the same grouping. -/
theorem parse_text_sub_sub :
    ∃ e, parse .standard "a - (b - 1)" = .ok e ∧
      e.same (.binary .sub (.variable "a") (.binary .sub (.variable "b") (.literal .one))) =
        true := by
  have hwell : (Expr.binary .sub (.variable "a") (.binary .sub (.variable "b")
      (.literal .one))).WellFormed := by
    simp only [Expr.WellFormed, Expr.everywhere_binary, Expr.everywhere_variable,
      Expr.everywhere_literal, Expr.IsWellFormedNode, IsIdentifier]
    decide +kernel
  have htext : (Expr.binary .sub (.variable "a") (.binary .sub (.variable "b")
      (.literal .one))).text = "a - (b - 1)" := by
    decide +kernel
  have hdepth : (Expr.binary .sub (.variable "a") (.binary .sub (.variable "b")
      (.literal .one))).depth ≤ Limits.standard.maxDepth := by
    rw [Expr.depth_eq_height]
    decide
  have hlength : "a - (b - 1)".length ≤ Limits.standard.maxLength := by decide
  rw [← htext] at hlength ⊢
  exact parse_text_same.1 .standard _ hwell hdepth hlength

end Formula

end PayrollFormula
