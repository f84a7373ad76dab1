import Mathlib.Data.List.Forall2
import PayrollFormula.Proofs.Number.Order
import PayrollFormula.Proofs.Template.Loaded

/-!
# The numbers of parameters

Each parameter of a template should have a finite number within its bounds, or else be refused.
Three things slip through: an integer or a fraction beyond the range of doubles fails without a
refusal, a default is not checked to be finite, and an undefined number as the only bound excludes
nothing. The promise is kept but for these (`Template.resolve_kept_iff`).
-/

set_option autoImplicit false

namespace PayrollFormula

/-- Whether an error refuses what was supplied; the only one that does not is the failure of a
conversion. -/
def ParameterError.IsRefusal : ParameterError → Prop
  | .number _ => False
  | _ => True

/-- Whether a value is an integer or a fraction beyond the range of doubles. -/
def Value.isTooLarge : Value → Bool
  | .int i => (Double.ofInt i).toOption.isNone
  | .fraction q => (Double.ofRat q).toOption.isNone
  | _ => false

namespace Parameter

variable {p : Parameter} {values : Fields}

/-- Whether a number lies within the bounds of a parameter. None lies within an undefined bound. -/
def Contains (p : Parameter) (x : Double) : Prop :=
  (∀ low, p.low = some low → low.le x = true) ∧ ∀ high, p.high = some high → x.le high = true

/-- Whether the only bound of a parameter is the undefined number. -/
def OnlyUndefined (p : Parameter) : Prop :=
  p.low = some .nan ∧ p.high = none ∨ p.low = none ∧ p.high = some .nan

/-- Whether the value supplied for a parameter is beyond the range of doubles. -/
def TooLarge (values : Fields) (p : Parameter) : Prop :=
  ∃ v, values.get? p.name = some v ∧ v.isTooLarge = true

/-- The ways in which a parameter evades its checks: its value is too large to be converted, its
default is used although it is not finite, or the only bound that it has is undefined. -/
inductive Slips (values : Fields) (p : Parameter) : Prop where
  | tooLarge : p.TooLarge values → Slips values p
  | default {x : Double} : values.get? p.name = none → p.default = some x → x.isFinite = false →
      p.within x = .ok x → Slips values p
  | undefined {x : Double} : p.OnlyUndefined → p.number values = .ok x → Slips values p

/-! ## Bounds -/

/-- A number is let pass by the bounds, or refused. -/
theorem within_cases (p : Parameter) (x : Double) :
    p.within x = .ok x ∨ ∃ err, p.within x = .error err ∧ err.IsRefusal := by
  unfold within
  cases p.low with
  | none =>
    cases p.high with
    | none => exact .inl rfl
    | some high =>
      simp only
      split_ifs
      · exact .inr ⟨_, rfl, trivial⟩
      · exact .inl rfl
  | some low =>
    cases p.high with
    | none =>
      simp only
      split_ifs
      · exact .inr ⟨_, rfl, trivial⟩
      · exact .inl rfl
    | some high =>
      simp only
      split_ifs
      · exact .inl rfl
      · exact .inr ⟨_, rfl, trivial⟩

/-- A finite number that the bounds let pass lies within them, unless there is but one and that is
undefined. -/
theorem contains_iff_of_within {x : Finite} (h : p.within (.finite x) = .ok (.finite x)) :
    p.Contains (.finite x) ↔ ¬ p.OnlyUndefined := by
  unfold within at h
  unfold Contains OnlyUndefined
  cases hlow : p.low with
  | none =>
    cases hhigh : p.high with
    | none => simp
    | some high =>
      rw [hlow, hhigh] at h
      simp only at h
      split_ifs at h with hout
      by_cases hnan : high = .nan
      · simp [hnan, Double.le, Double.lt, Double.numEq]
      · simp [hnan, Double.finite_le hnan, hout]
  | some low =>
    cases hhigh : p.high with
    | none =>
      rw [hlow, hhigh] at h
      simp only at h
      split_ifs at h with hout
      by_cases hnan : low = .nan
      · simp [hnan, Double.le, Double.lt, Double.numEq]
      · simp [hnan, Double.le_finite hnan, hout]
    | some high =>
      rw [hlow, hhigh] at h
      simp only at h
      split_ifs at h with hin
      simpa using hin

/-! ## One parameter -/

/-- A number is let pass if it is finite and refused otherwise. -/
theorem finiteOr_cases (name : String) (v : Value) (x : Double) :
    (∃ y, finiteOr name v x = .ok (.finite y)) ∨
      finiteOr name v x = .error (.notFinite name v) := by
  cases x with
  | finite y => exact .inl ⟨y, rfl⟩
  | infinite | nan => exact .inr rfl

/-- A conversion gives a finite number, or an error that is no refusal exactly if the value is too
large. -/
theorem converted_cases (name : String) (v : Value) (r : Except NumberError Double) :
    (∃ x, converted name v r = .ok (.finite x) ∧ r.toOption.isNone = false) ∨
      ∃ err, converted name v r = .error err ∧ (err.IsRefusal ↔ r.toOption.isNone = false) := by
  cases r with
  | ok x =>
    obtain ⟨y, hy⟩ | hrefused := finiteOr_cases name v x
    · exact .inl ⟨y, hy, rfl⟩
    · exact .inr ⟨_, hrefused, iff_of_true trivial rfl⟩
  | error e => exact .inr ⟨_, rfl, by simp [ParameterError.IsRefusal, Except.toOption]⟩

/-- A supplied value stands for a finite number, or is refused unless it is too large. -/
theorem supplied_cases (name : String) (v : Value) :
    (∃ x, supplied name v = .ok (.finite x) ∧ v.isTooLarge = false) ∨
      ∃ err, supplied name v = .error err ∧ (err.IsRefusal ↔ v.isTooLarge = false) := by
  cases v with
  | int i => exact converted_cases name (.int i) (Double.ofInt i)
  | fraction q => exact converted_cases name (.fraction q) (Double.ofRat q)
  | double x => exact converted_cases name (.double x) (.ok x)
  | text s =>
    rw [supplied]
    cases Double.read? s with
    | some x => exact converted_cases name (.text s) (.ok x)
    | none => exact .inr ⟨_, rfl, iff_of_true trivial rfl⟩
  | null | bool | decimal | list | record => exact .inr ⟨_, rfl, iff_of_true trivial rfl⟩

/-- A parameter's value is too large exactly if the one supplied is. -/
theorem tooLarge_iff {v : Value} (hv : values.get? p.name = some v) :
    p.TooLarge values ↔ v.isTooLarge = true := by
  unfold TooLarge
  rw [hv]
  simp

/-- Without a value supplied, none is too large. -/
theorem not_tooLarge_of_none (hv : values.get? p.name = none) : ¬p.TooLarge values := by
  rintro ⟨v, hsome, -⟩
  cases hv.symm.trans hsome

/-- A parameter has a number that its bounds let pass, and that is finite unless it is its
default. Otherwise it is refused, unless its value is too large. -/
theorem number_cases (values : Fields) (p : Parameter) :
    (∃ x, p.number values = .ok x ∧ p.within x = .ok x ∧ ¬p.TooLarge values ∧
        (values.get? p.name ≠ none ∧ x.isFinite = true ∨
          values.get? p.name = none ∧ p.default = some x)) ∨
      ∃ err, p.number values = .error err ∧ (err.IsRefusal ↔ ¬p.TooLarge values) := by
  unfold number
  cases hv : values.get? p.name with
  | some v =>
    rw [tooLarge_iff hv]
    obtain ⟨x, hx, hfits⟩ | ⟨err, herr, hiff⟩ := supplied_cases p.name v
    · have hstep : (supplied p.name v >>= p.within) = p.within (.finite x) := by
        rw [hx]
        rfl
      simp only [hstep, hfits]
      obtain hok | ⟨err, herr, hrefusal⟩ := within_cases p (.finite x)
      · exact .inl ⟨_, hok, hok, by simp, .inl ⟨by simp, rfl⟩⟩
      · exact .inr ⟨err, herr, by simp [hrefusal]⟩
    · have hstep : (supplied p.name v >>= p.within) = .error err := by
        rw [herr]
        rfl
      simp only [hstep]
      exact .inr ⟨err, rfl, by simp [hiff]⟩
  | none =>
    have hfits := not_tooLarge_of_none hv
    cases hx : p.default with
    | none => exact .inr ⟨_, rfl, iff_of_true trivial hfits⟩
    | some x =>
      obtain hok | ⟨err, herr, hrefusal⟩ := within_cases p x
      · exact .inl ⟨x, hok, hok, hfits, .inr ⟨rfl, rfl⟩⟩
      · exact .inr ⟨err, herr, iff_of_true hrefusal hfits⟩

/-- What a parameter fails with is a refusal unless its value is too large. -/
theorem isRefusal_iff {err : ParameterError} (h : p.number values = .error err) :
    err.IsRefusal ↔ ¬p.TooLarge values := by
  obtain ⟨x, hx, -⟩ | ⟨err', herr, hiff⟩ := number_cases values p
  · cases hx.symm.trans h
  · cases herr.symm.trans h
    exact hiff

/-- The number that a parameter has is finite and within the bounds, unless the parameter evades
its checks. -/
theorem contains_iff {x : Double} (h : p.number values = .ok x) :
    x.isFinite = true ∧ p.Contains x ↔ ¬p.Slips values := by
  obtain ⟨x', hx, hwithin, hfits, hsource⟩ | ⟨err, herr, -⟩ := number_cases values p
  · cases hx.symm.trans h
    have hslips : p.Slips values ↔ x.isFinite = false ∨ p.OnlyUndefined := by
      constructor
      · rintro (hlarge | ⟨hnone, hdefault, hnot, hpass⟩ | ⟨hundefined, -⟩)
        · exact absurd hlarge hfits
        · obtain ⟨hsome, -⟩ | ⟨-, hsame⟩ := hsource
          · exact absurd hnone hsome
          · cases hdefault.symm.trans hsame
            exact .inl hnot
        · exact .inr hundefined
      · rintro (hnot | hundefined)
        · obtain ⟨hnone, hdefault⟩ := hsource.resolve_left fun h => by simp [hnot] at h
          exact .default hnone hdefault hnot hwithin
        · exact .undefined hundefined h
    rw [hslips]
    cases x with
    | finite y => simp [Double.isFinite, contains_iff_of_within hwithin]
    | infinite | nan => simp [Double.isFinite]
  · cases herr.symm.trans h

end Parameter

/-! ## All parameters -/

section Results

variable {ε α β : Type} {f : α → Except ε β} {r : Except ε α}

/-- Changing a result does not change whether there is one. -/
theorem isOk_map (g : α → β) : (r.map g).isOk = r.isOk := by
  cases r <;> rfl

/-- Changing a result does not change an error. -/
theorem map_eq_error_iff {g : α → β} {err : ε} : r.map g = .error err ↔ r = .error err := by
  cases r <;> simp [Except.map]

/-- A result next to something fixed is that and the result. -/
theorem map_pair_eq_ok_iff {b : β} {q : β × α} :
    r.map (b, ·) = .ok q ↔ q.1 = b ∧ r = .ok q.2 := by
  cases r with
  | error e => simp [Except.map]
  | ok a => simp [Except.map, Prod.ext_iff, eq_comm]

/-- A failure at the elements of a list is the failure at the first one that has none. -/
theorem exists_of_mapM_eq_error {as : List α} {err : ε} (h : as.mapM f = .error err) :
    ∃ a, as.find? (fun a => !(f a).isOk) = some a ∧ f a = .error err := by
  induction as with
  | nil => cases h
  | cons a as ih =>
    rw [List.mapM_cons] at h
    cases ha : f a with
    | error e =>
      rw [ha] at h
      cases h
      exact ⟨a, by simp [ha, Except.isOk, Except.toBool], ha⟩
    | ok b =>
      cases has : as.mapM f with
      | ok bs =>
        simp only [ha, has, bind, Except.bind] at h
        cases h
      | error e =>
        simp only [ha, has, bind, Except.bind] at h
        cases h
        obtain ⟨a', hfind, ha'⟩ := ih has
        refine ⟨a', ?_, ha'⟩
        rw [List.find?_cons, ha]
        exact hfind

/-- If several computations succeed, each gives its result. -/
theorem forall₂_of_mapM_eq_ok {as : List α} {bs : List β} (h : as.mapM f = .ok bs) :
    List.Forall₂ (fun a b => f a = .ok b) as bs := by
  induction as generalizing bs with
  | nil =>
    cases h
    exact .nil
  | cons a as ih =>
    rw [List.mapM_cons] at h
    cases ha : f a with
    | error e =>
      rw [ha] at h
      cases h
    | ok b =>
      cases has : as.mapM f with
      | error e =>
        simp only [ha, has, bind, Except.bind] at h
        cases h
      | ok bs' =>
        simp only [ha, has, bind, Except.bind] at h
        cases h
        exact .cons ha (ih has)

end Results

namespace Template

/-- Whether a text is a written numeral, or one after a minus sign and in parentheses. -/
def IsOperand (cs : List Char) : Prop :=
  ∃ p : Numeral.Parts, p.Proper ∧ (cs = p.text ∨ cs = '(' :: '-' :: (p.text ++ [')']))

/-- What is promised of the numbers of a template's parameters: that something is refused, or that
each declared parameter has a finite number within its bounds and no other name has one, and each
placeholder is replaced by a numeral. -/
def Kept (t : Template) : Except ParameterError (List (String × Double)) → Prop
  | .ok numbers =>
    numbers.map Prod.fst = t.parameterNames ∧
      List.Forall₂ (fun p q => q.1 = p.name ∧ q.2.isFinite = true ∧ p.Contains q.2)
        t.declared numbers ∧
      ∀ name, .placeholder name ∈ t.segments → IsOperand (fill numbers (.placeholder name))
  | .error err => err.IsRefusal

/-- The text of a finite number is an operand. -/
theorem isOperand_operandText {x : Double} (h : x.isFinite = true) : IsOperand (operandText x) := by
  cases x with
  | finite x =>
    obtain ⟨p, hp, -, htext⟩ := exists_operand x
    refine ⟨p, hp, ?_⟩
    rw [htext]
    split_ifs
    · exact .inr rfl
    · exact .inl rfl
  | infinite | nan => cases h

/-- A name with a number is found with one. -/
theorem exists_lookup_of_mem {numbers : List (String × Double)} {p : String}
    (hp : p ∈ numbers.map Prod.fst) : ∃ x, numbers.lookup p = some x ∧ (p, x) ∈ numbers := by
  cases hx : numbers.lookup p with
  | none =>
    obtain ⟨q, hq, rfl⟩ := List.mem_map.mp hp
    have hne := List.lookup_eq_none_iff.mp hx q hq
    simp at hne
  | some x =>
    obtain ⟨before, after, rfl, -⟩ := List.lookup_eq_some_iff.mp hx
    exact ⟨x, rfl, by simp⟩

/-- What is filled in for a placeholder with a finite number is an operand. -/
theorem isOperand_fill {numbers : List (String × Double)} {name : List Char}
    (hname : String.ofList name ∈ numbers.map Prod.fst)
    (hfinite : ∀ q ∈ numbers, q.2.isFinite = true) :
    IsOperand (fill numbers (.placeholder name)) := by
  obtain ⟨x, hx, hmem⟩ := exists_lookup_of_mem hname
  rw [fill, hx]
  exact isOperand_operandText (hfinite (String.ofList name, x) hmem)

/-- The numbers that the parameters have are as promised exactly if no parameter evades its
checks. -/
theorem forall₂_contains_iff {values : Fields} {ps : List Parameter}
    {numbers : List (String × Double)}
    (h : List.Forall₂ (fun p q => q.1 = p.name ∧ p.number values = .ok q.2) ps numbers) :
    List.Forall₂ (fun p q => q.1 = p.name ∧ q.2.isFinite = true ∧ p.Contains q.2) ps numbers ↔
      ∀ p ∈ ps, ¬p.Slips values := by
  induction h with
  | nil => simp
  | cons hpq _ ih =>
    rw [List.forall₂_cons, ih, List.forall_mem_cons]
    simp only [hpq.1, true_and, Parameter.contains_iff hpq.2]

/-- If a value is supplied for an unknown name, the promise is kept. -/
theorem resolve_of_unknown {t : Template} {values : Fields}
    (h : ∃ name ∈ values.names, name ∉ t.parameterNames) : t.Kept (t.resolve values) := by
  unfold resolve
  split
  · rename_i hnone
    obtain ⟨name, hname, hnot⟩ := h
    exact absurd (namesOutside_eq_nil_iff.mp hnone name hname) hnot
  · trivial

/-- If all supplied names are known, each declared parameter gets its number. -/
theorem resolve_of_known {t : Template} {values : Fields}
    (h : ∀ name ∈ values.names, name ∈ t.parameterNames) :
    t.resolve values = t.declared.mapM fun p => (p.number values).map (p.name, ·) := by
  unfold resolve
  rw [namesOutside_eq_nil_iff.mpr h]
  refine congrArg (List.mapM · t.declared) (funext fun p => ?_)
  cases p.number values <;> rfl

/-- The numbers that parameters get stand under their names. -/
theorem map_fst_eq {t : Template} {values : Fields} {numbers : List (String × Double)}
    (h : List.Forall₂ (fun p q => q.1 = p.name ∧ p.number values = .ok q.2) t.declared numbers) :
    numbers.map Prod.fst = t.parameterNames := by
  have hnames : List.Forall₂ Eq (t.declared.map Parameter.name) (numbers.map Prod.fst) := by
    rw [List.forall₂_map_left_iff, List.forall₂_map_right_iff]
    exact h.imp fun p q hpq => hpq.1.symm
  rw [List.forall₂_eq_eq_eq, map_name_declared] at hnames
  exact hnames.symm

/-- Each declared parameter gets the number that it has. -/
theorem forall₂_of_resolve {t : Template} {values : Fields} {numbers : List (String × Double)}
    (h : t.resolve values = .ok numbers) :
    List.Forall₂ (fun p q => q.1 = p.name ∧ p.number values = .ok q.2) t.declared numbers := by
  have hknown : ∀ name ∈ values.names, name ∈ t.parameterNames := by
    by_contra hnot
    unfold resolve at h
    split at h
    · rename_i hnone
      exact hnot (namesOutside_eq_nil_iff.mp hnone)
    · cases h
  rw [resolve_of_known hknown] at h
  exact (forall₂_of_mapM_eq_ok h).imp fun p q hpq => map_pair_eq_ok_iff.mp hpq

/-- The numbers of a template stand under the names of its parameters. -/
theorem map_fst_of_resolve {t : Template} {values : Fields} {numbers : List (String × Double)}
    (h : t.resolve values = .ok numbers) : numbers.map Prod.fst = t.parameterNames :=
  map_fst_eq (forall₂_of_resolve h)

/-- With a number for each parameter, the promise is kept exactly if none evades its checks. -/
theorem kept_ok_iff {place : String} {document : Value} {c : Catalogue}
    (hload : Catalogue.load place document = .ok c) {t : Template} (ht : t ∈ c) {values : Fields}
    {numbers : List (String × Double)}
    (h : List.Forall₂ (fun p q => q.1 = p.name ∧ p.number values = .ok q.2) t.declared numbers) :
    t.Kept (.ok numbers) ↔ ∀ p ∈ t.declared, ¬p.Slips values := by
  rw [← forall₂_contains_iff h]
  constructor
  · exact fun hkept => hkept.2.1
  · intro hall
    refine ⟨map_fst_eq h, hall, fun name hname => ?_⟩
    have hswap : List.Forall₂ (fun q p => q.2.isFinite = true ∧ p.Contains q.2) numbers
        t.declared := (hall.imp fun p q hpq => hpq.2).flip
    apply isOperand_fill
    · rw [map_fst_eq h, ← Catalogue.placeholders_of_load hload ht]
      exact mem_placeholders hname
    · exact ((List.forall₂_and_left _ _).mp hswap).1

/-- The promise about the numbers of a loaded template's parameters is kept exactly if a supplied
name is not declared, if the first parameter that gets no number is refused and not too large, or
if no parameter evades its checks. -/
theorem resolve_kept_iff {place : String} {document : Value} {c : Catalogue}
    (hload : Catalogue.load place document = .ok c) {t : Template} (ht : t ∈ c) (values : Fields) :
    t.Kept (t.resolve values) ↔
      (∃ name ∈ values.names, name ∉ t.parameterNames) ∨
      (∃ p, t.declared.find? (fun p => !(p.number values).isOk) = some p ∧ ¬p.TooLarge values) ∨
      ∀ p ∈ t.declared, ¬p.Slips values := by
  by_cases hunknown : ∃ name ∈ values.names, name ∉ t.parameterNames
  · exact iff_of_true (resolve_of_unknown hunknown) (.inl hunknown)
  have hknown : ∀ name ∈ values.names, name ∈ t.parameterNames := by
    simpa using hunknown
  rw [resolve_of_known hknown, or_iff_right hunknown]
  cases hnumbers : t.declared.mapM fun p => (p.number values).map (p.name, ·) with
  | error err =>
    -- The first parameter without a number decides, also about the parameters after it.
    obtain ⟨p, hfind, herr⟩ := exists_of_mapM_eq_error hnumbers
    simp only [isOk_map] at hfind
    rw [map_eq_error_iff] at herr
    rw [hfind]
    have hrefusal : t.Kept (.error err) ↔ ¬p.TooLarge values := Parameter.isRefusal_iff herr
    rw [hrefusal]
    constructor
    · intro hfits
      exact .inl ⟨p, rfl, hfits⟩
    · rintro (⟨q, hq, hfits⟩ | hnone)
      · cases hq
        exact hfits
      · intro hlarge
        exact hnone p (List.mem_of_find?_eq_some hfind) (.tooLarge hlarge)
  | ok numbers =>
    have hall : List.Forall₂ (fun p q => q.1 = p.name ∧ p.number values = .ok q.2) t.declared
        numbers := (forall₂_of_mapM_eq_ok hnumbers).imp fun p q hpq => map_pair_eq_ok_iff.mp hpq
    have hnone : t.declared.find? (fun p => !(p.number values).isOk) = none := by
      rw [List.find?_eq_none]
      have hok : List.Forall₂ (fun p _ => (p.number values).isOk = true ∧ True) t.declared
          numbers := hall.imp fun p q hpq => by simp [hpq.2, Except.isOk, Except.toBool]
      intro p hp
      simp [((List.forall₂_and_left _ _).mp hok).1 p hp]
    rw [kept_ok_iff hload ht hall, hnone]
    simp

/-- A document with a template that has one parameter, and a default for it. -/
def scaledDocument (default : Double) : Value :=
  .record [("templates", .list [.record
    [("code", .text "scaled"), ("name", .text "Scaled"), ("category", .text "general"),
      ("description", .text "A multiple"), ("formula", .text "base * \x7bfactor\x7d"),
      ("parameters", .list [.record [("name", .text "factor"), ("default", .double default)]])]])]

/-- The template of such a document. -/
def scaled (default : Double) : Template :=
  ⟨"scaled", "Scaled", "general", "A multiple", "base * \x7bfactor\x7d", [],
    [⟨"factor", .number, "", none, none, some default⟩], none⟩

/-- Without a value supplied, the default is used. -/
theorem resolve_scaled (default : Double) :
    (scaled default).resolve [] = .ok [("factor", default)] := by
  rw [resolve_of_known (by simp [Fields.names])]
  rfl

/-- A finite default within its bounds, of which there are none here, is a number as promised. -/
theorem resolve_scaled_kept :
    Catalogue.load "t" (scaledDocument .one) = .ok [scaled .one] ∧
      (scaled .one).Kept ((scaled .one).resolve []) := by
  have hload : Catalogue.load "t" (scaledDocument .one) = .ok [scaled .one] := by
    decide +kernel
  refine ⟨hload, (resolve_kept_iff hload List.mem_cons_self []).mpr (.inr (.inr ?_))⟩
  intro p hp
  have hdeclared : (scaled .one).declared = (scaled .one).parameters := by rfl
  rw [hdeclared] at hp
  cases List.mem_singleton.mp hp
  rintro (⟨v, hv, -⟩ | ⟨-, hdefault, hfinite, -⟩ | ⟨hundefined, -⟩)
  · cases hv
  · cases hdefault
    cases hfinite
  · simp [Parameter.OnlyUndefined, Parameter.low, Parameter.high] at hundefined

/-- An infinite default is written into the formula as if it were a variable. -/
theorem infinite_default_not_kept :
    ¬∀ (place : String) (document : Value) (c : Catalogue) (t : Template) (values : Fields),
      Catalogue.load place document = .ok c → t ∈ c → t.Kept (t.resolve values) := by
  intro h
  have hload : Catalogue.load "t" (scaledDocument (.infinite false)) =
      .ok [scaled (.infinite false)] := by
    decide +kernel
  have hkept := h "t" _ _ _ [] hload List.mem_cons_self
  rw [resolve_scaled] at hkept
  obtain ⟨-, hall, -⟩ := hkept
  cases hall with
  | cons hp _ => cases hp.2.1

end Template

end PayrollFormula
