import PayrollFormula.Proofs.Formula.RoundTrip
import PayrollFormula.Proofs.Text.Occurrences

/-!
# The variables in a text

A name in a text stands for a variable unless an opening parenthesis comes next, which makes it the
name of a function. The variable nodes of a tree, each node taken before its parts and the parts
from left to right, are the names that stand for variables in any text with this tree
(`Derives.namesRead`). So the variables that are listed for a formula are the names in its text, in
the order of their first occurrence.
-/

set_option autoImplicit false

namespace PayrollFormula

/-- The names among some tokens that no opening parenthesis follows. -/
def namesRead : List Token → List String
  | [] => []
  | t :: ts =>
    if t.kind = .name ∧ ts.head?.map Token.kind ≠ some .leftParen then t.text :: namesRead ts
    else namesRead ts

/-- Without tokens no names are read. -/
@[simp] theorem namesRead_nil : namesRead [] = [] := rfl

/-- A token that is no name adds none to those that are read. -/
theorem namesRead_cons {t : Token} (ht : t.kind ≠ .name) (ts : List Token) :
    namesRead (t :: ts) = namesRead ts := by
  rw [namesRead, if_neg fun h => ht h.1]

/-- The name of a function is not among the names that are read as variables. -/
theorem namesRead_call {f l : Token} (hl : l.kind = .leftParen) (ts : List Token) :
    namesRead (f :: l :: ts) = namesRead (l :: ts) := by
  rw [namesRead, if_neg fun h => h.2 (by simp [hl])]

/-- What stands in front of a token makes no difference to the names from there on, and the token
makes none to the names in front of it unless it is an opening parenthesis. -/
theorem namesRead_append_cons (ts : List Token) {t : Token} (ht : t.kind ≠ .leftParen)
    (us : List Token) : namesRead (ts ++ t :: us) = namesRead ts ++ namesRead (t :: us) := by
  induction ts with
  | nil => rfl
  | cons u ts ih =>
    have hnext : (ts ++ t :: us).head?.map Token.kind ≠ some .leftParen ↔
        ts.head?.map Token.kind ≠ some .leftParen := by
      cases ts with
      | nil => simpa using ht
      | cons v ts => simp
    rw [List.cons_append, namesRead, namesRead, ih]
    simp only [hnext]
    split_ifs <;> rfl

/-- Two phrases with a token between them that is no name and opens no parenthesis. -/
theorem namesRead_between (ts : List Token) {t : Token} (hname : t.kind ≠ .name)
    (hopen : t.kind ≠ .leftParen) (us : List Token) :
    namesRead (ts ++ t :: us) = namesRead ts ++ namesRead us := by
  rw [namesRead_append_cons ts hopen, namesRead_cons hname]

/-- Within parentheses, the same names are read. -/
theorem namesRead_enclosed {l r : Token} (hl : l.kind = .leftParen) (hr : r.kind = .rightParen)
    (ts : List Token) : namesRead (l :: (ts ++ [r])) = namesRead ts := by
  rw [namesRead_cons (by simp [hl]), namesRead_between ts (by simp [hr]) (by simp [hr]),
    namesRead_nil, List.append_nil]

/-- A name that is read is the text of a token. -/
theorem exists_of_mem_namesRead {name : String} {ts : List Token} (h : name ∈ namesRead ts) :
    ∃ t ∈ ts, t.kind = .name ∧ t.text = name := by
  induction ts with
  | nil => cases h
  | cons t ts ih =>
    rw [namesRead] at h
    split_ifs at h with ht
    · rcases List.mem_cons.mp h with rfl | h
      · exact ⟨t, List.mem_cons_self, ht.1, rfl⟩
      · obtain ⟨u, hu, hname⟩ := ih h
        exact ⟨u, List.mem_cons_of_mem t hu, hname⟩
    · obtain ⟨u, hu, hname⟩ := ih h
      exact ⟨u, List.mem_cons_of_mem t hu, hname⟩

namespace Grammar

open PayrollFormula.Expr

/-- The names that a phrase reads are the variable nodes of its tree, in the same order and as
often. -/
theorem Derives.namesRead {c : Category} {ts : List Token} {e : Expr} (h : Derives c ts e) :
    namesRead ts = e.nodes.filterMap variableName? := by
  induction h using Derives.rec (motive_2 := fun ts args _ =>
    PayrollFormula.namesRead ts = args.flatMap fun a => a.nodes.filterMap variableName?) with
  | tighter _ _ ih => exact ih
  | choice _ hq _ hm _ ihc iha ihb =>
    rw [namesRead_between _ (by simp [hq]) (by simp [hq]),
      namesRead_between _ (by simp [hm]) (by simp [hm]), ihc, iha, ihb]
    simp [List.filterMap_cons, variableName?]
  | binary hj _ _ iha ihb =>
    rw [namesRead_between _ hj.kind_ne_name hj.kind_ne_leftParen, iha, ihb]
    simp [List.filterMap_cons, variableName?]
  | not ht _ ih | neg ht _ ih =>
    rw [namesRead_cons (by simp [ht]), ih]
    simp [List.filterMap_cons, variableName?]
  | number ht _ =>
    rw [namesRead_cons (by simp [ht])]
    simp [List.filterMap_cons, variableName?]
  | named ht => simp [PayrollFormula.namesRead, ht, variableName?]
  | group hl _ hr ih => rw [namesRead_enclosed hl hr, ih]
  | callNone _ hl hr =>
    rw [namesRead_call hl, namesRead_cons (by simp [hl]), namesRead_cons (by simp [hr])]
    simp [callNamed, List.filterMap_cons, variableName?]
  | callSome _ hl _ hr ih =>
    rw [namesRead_call hl, namesRead_enclosed hl hr, ih]
    simp [callNamed, List.filterMap_cons, variableName?, List.filterMap_flatMap]
  | last _ ih => simpa using ih
  | more _ ht _ iha ih =>
    rw [namesRead_between _ (by simp [ht]) (by simp [ht]), iha, ih, List.flatMap_cons]

end Grammar

namespace Formula

/-- The variables that are listed for a formula are the names in any text that is read as it, in the
order of their first occurrence and each of them once. A name that an opening parenthesis follows
is none of them. Each has the form of a name, and none is an operator in any letter case. -/
theorem parse_variableNames {limits : Limits} {text : String} {e : Expr}
    (h : parse limits text = .ok e) :
    ∃ ts, tokens text.toList = .ok ts ∧ ListsFirst e.variableNames (namesRead ts) ∧
      ∀ name ∈ e.variableNames, IsIdentifier name.toList := by
  obtain ⟨hblank, -, htree, -⟩ := parse_eq_ok_iff_tree.mp h
  obtain ⟨ts, hscan, hderives⟩ := tree_eq_ok_iff.mp htree
  have hlists : ListsFirst e.variableNames (namesRead ts) := by
    rw [listsFirst_iff, hderives.namesRead, Expr.variableNames_eq]
  refine ⟨ts, tokens_eq_ok_iff.mpr ⟨hblank, hscan⟩, hlists, ?_⟩
  intro name hname
  obtain ⟨t, ht, hkind, rfl⟩ := exists_of_mem_namesRead ((hlists.mem_iff name).mp hname)
  have hproper := (scan_eq_iff.mp hscan).properNames t ht hkind
  rwa [Token.text, String.toList_ofList]

/-- A name on both sides of a choice is listed where it stands first, and one that differs in letter
case is another name. -/
theorem parse_variableNames_choice :
    ∃ ts, tokens "max(b, a) ? b : A".toList = .ok ts ∧ ListsFirst ["b", "a", "A"] (namesRead ts) ∧
      ∀ name ∈ ["b", "a", "A"], IsIdentifier name.toList := by
  have hparse : parse .standard "max(b, a) ? b : A" = .ok (.choice
      (.callNamed "max" [.variable "b", .variable "a"]) (.variable "b") (.variable "A")) := by
    rw [parse_eq_ok_iff_tree, Expr.depth_eq_height]
    exact ⟨by decide, by decide, by rfl, by decide⟩
  have hnames : (Expr.choice (.callNamed "max" [.variable "b", .variable "a"]) (.variable "b")
      (.variable "A")).variableNames = ["b", "a", "A"] := by
    simp only [Expr.variableNames_eq, Expr.callNamed, Expr.nodes_choice, Expr.nodes_call,
      Expr.nodes_variable, List.flatMap_cons, List.flatMap_nil]
    rfl
  exact hnames ▸ parse_variableNames hparse

end Formula

end PayrollFormula
