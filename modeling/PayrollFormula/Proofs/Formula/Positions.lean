import PayrollFormula.Proofs.Formula.Trees

/-!
# Positions in a formula

A position in a formula is the path to a part: which of its parts to enter first, which part of that
one next, and so on. In the lexicographic order of positions a formula stands before what is inside
it, and its parts stand from left to right. The nodes of a formula are its parts in this order, one
for every position (`Expr.listsParts_nodes`), so a list made from the nodes tells equal parts at
different positions apart.
-/

set_option autoImplicit false

namespace PayrollFormula

namespace Expr

/-- The part of a formula at a position. -/
def partAt? (e : Expr) : List ℕ → Option Expr
  | [] => some e
  | i :: p => e.children[i]?.bind fun a => a.partAt? p

/-- At its own place stands the formula. -/
@[simp] theorem partAt?_nil (e : Expr) : e.partAt? [] = some e := rfl

/-- A place inside a formula is one inside a part. -/
@[simp] theorem partAt?_cons (e : Expr) (i : ℕ) (p : List ℕ) :
    e.partAt? (i :: p) = e.children[i]?.bind fun a => a.partAt? p := rfl

variable {α : Type}

/-! ## Lists with positions -/

/-- Whether the positions in a list ascend. -/
def Ascends (placed : List (List ℕ × α)) : Prop := placed.Pairwise fun x y => x.1 < y.1

/-- What is placed in a part, placed in the formula of which it is the part with the given index. -/
def enter (i : ℕ) (placed : List (List ℕ × α)) : List (List ℕ × α) :=
  placed.map fun x => (i :: x.1, x.2)

section Enter

variable {i : ℕ} {placed : List (List ℕ × α)}

/-- Entering a part keeps what is placed. -/
theorem map_snd_enter : (enter i placed).map Prod.snd = placed.map Prod.snd := by
  simp [enter, Function.comp_def]

/-- What is placed in a part is placed in the whole, one step further down. -/
theorem mem_enter {p : List ℕ} {a : α} :
    (p, a) ∈ enter i placed ↔ ∃ q, p = i :: q ∧ (q, a) ∈ placed := by
  simp [enter, eq_comm, and_comm]

/-- Entering a part keeps the order of places. -/
theorem Ascends.enter (h : Ascends placed) : Ascends (enter i placed) := by
  refine List.pairwise_map.mpr (h.imp fun hlt => ?_)
  exact List.cons_lt_cons_iff.mpr (.inr ⟨rfl, hlt⟩)

end Enter

/-- Whether a list holds what is related to the parts of a formula, once for every position and in
the order of the positions. -/
def ListsParts (R : Expr → α → Prop) (e : Expr) (as : List α) : Prop :=
  ∃ placed : List (List ℕ × α), placed.map Prod.snd = as ∧ Ascends placed ∧
    ∀ p a, (p, a) ∈ placed ↔ ∃ n, e.partAt? p = some n ∧ R n a

/-! ## The positions of the nodes -/

/-- Formulas that stand side by side, the first of them at `i`, are listed one behind the other if
each of them is. -/
theorem exists_placed_flatMap {es : List Expr} (h : ∀ a ∈ es, ListsParts Eq a a.nodes) (i : ℕ) :
    ∃ placed : List (List ℕ × Expr), placed.map Prod.snd = es.flatMap nodes ∧ Ascends placed ∧
      ∀ p n, (p, n) ∈ placed ↔
        ∃ j q, p = (i + j) :: q ∧ es[j]?.bind (fun a => a.partAt? q) = some n := by
  induction es generalizing i with
  | nil => exact ⟨[], rfl, .nil, by simp⟩
  | cons e es ih =>
    obtain ⟨inside, hinside, hascends, hmemInside⟩ := h e List.mem_cons_self
    obtain ⟨behind, hbehind, hascendsBehind, hmemBehind⟩ :=
      ih (fun a ha => h a (List.mem_cons_of_mem e ha)) (i + 1)
    -- What is inside the first formula is entered at `i`, and all that is behind it after `i`.
    refine ⟨enter i inside ++ behind, ?_, ?_, ?_⟩
    · rw [List.map_append, map_snd_enter, hinside, hbehind, List.flatMap_cons]
    · refine List.pairwise_append.mpr ⟨hascends.enter, hascendsBehind, ?_⟩
      rintro ⟨p, m⟩ hx ⟨p', n⟩ hy
      obtain ⟨q, rfl, -⟩ := mem_enter.mp hx
      obtain ⟨j, q', rfl, -⟩ := (hmemBehind p' n).mp hy
      exact List.cons_lt_cons_iff.mpr (.inl (by omega))
    · intro p n
      have hplace (j : ℕ) : i + (j + 1) = i + 1 + j := by omega
      rw [List.mem_append, mem_enter, hmemBehind]
      constructor
      · rintro (⟨q, rfl, hn⟩ | ⟨j, q, rfl, hn⟩)
        · obtain ⟨_, hq, rfl⟩ := (hmemInside q n).mp hn
          exact ⟨0, q, rfl, hq⟩
        · exact ⟨j + 1, q, by rw [hplace j], hn⟩
      · rintro ⟨j, q, rfl, hn⟩
        cases j with
        | zero => exact .inl ⟨q, rfl, (hmemInside q n).mpr ⟨n, hn, rfl⟩⟩
        | succ j => exact .inr ⟨j, q, by rw [hplace j], hn⟩

/-- The nodes of a formula are its parts in the order of their positions. -/
theorem listsParts_nodes (e : Expr) : ListsParts Eq e e.nodes := by
  induction e using induction_children with
  | h e ih =>
    obtain ⟨inside, hinside, hascends, hmem⟩ := exists_placed_flatMap ih 0
    refine ⟨([], e) :: inside, ?_, ?_, ?_⟩
    · rw [List.map_cons, hinside, nodes_eq]
    · refine hascends.cons ?_
      rintro ⟨p, n⟩ hn
      obtain ⟨j, q, rfl, -⟩ := (hmem p n).mp hn
      exact List.nil_lt_cons _ _
    · intro p n
      rw [List.mem_cons, hmem]
      cases p with
      | nil => simp [eq_comm]
      | cons i p => simp

/-- What a function gives for the nodes of a formula is listed in the order of their positions. -/
theorem listsParts_filterMap_nodes (f : Expr → Option α) (e : Expr) :
    ListsParts (fun n a => f n = some a) e (e.nodes.filterMap f) := by
  obtain ⟨placed, hplaced, hascends, hmem⟩ := e.listsParts_nodes
  refine ⟨placed.filterMap fun x => (f x.2).map fun a => (x.1, a), ?_, ?_, ?_⟩
  · rw [← hplaced, List.map_filterMap, List.filterMap_map]
    congr 1
    funext x
    simp [Function.comp_def]
  · refine List.pairwise_filterMap.mpr (hascends.imp ?_)
    rintro x y hlt _ hx _ hy
    obtain ⟨a, -, rfl⟩ := Option.map_eq_some_iff.mp hx
    obtain ⟨b, -, rfl⟩ := Option.map_eq_some_iff.mp hy
    exact hlt
  · intro p a
    constructor
    · intro h
      obtain ⟨⟨q, n⟩, hn, heq⟩ := List.mem_filterMap.mp h
      obtain ⟨b, hb, heq⟩ := Option.map_eq_some_iff.mp heq
      cases heq
      obtain ⟨m, hm, rfl⟩ := (hmem q n).mp hn
      exact ⟨m, hm, hb⟩
    · rintro ⟨n, hn, ha⟩
      refine List.mem_filterMap.mpr ⟨(p, n), (hmem p n).mpr ⟨n, hn, rfl⟩, ?_⟩
      rw [ha]
      rfl

end Expr

end PayrollFormula
