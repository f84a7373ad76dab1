import Mathlib.Data.List.Basic
import PayrollFormula.Formula.Expr
import PayrollFormula.Proofs.Text.Occurrences

/-!
# Trees and their nodes

The work lists of `Expr.walk`, `Expr.deepest` and `Expr.collect` compute what the obvious recursions
over a tree compute: `nodes_eq` lists a formula before the nodes of its parts, `depth_eq_height`
gives the depth as one more than the greatest height of a part, and `variableNames_eq` the variables
as the first occurrences among the nodes. `Expr.induction` is the induction over the parts of a
formula that the proofs about trees use; a call has as many parts as it has arguments.
-/

set_option autoImplicit false

namespace PayrollFormula

namespace Expr

/-- A property that every formula inherits from its parts holds of all formulas. -/
@[elab_as_elim]
theorem induction {P : Expr → Prop} (literal : ∀ x, P (.literal x))
    (named : ∀ name, P (.variable name)) (unary : ∀ op a, P a → P (.unary op a))
    (binary : ∀ op a b, P a → P b → P (.binary op a b))
    (choice : ∀ c a b, P c → P a → P b → P (.choice c a b))
    (call : ∀ name args, (∀ a ∈ args, P a) → P (.call name args)) (e : Expr) : P e := by
  refine Expr.rec (motive_1 := P) (motive_2 := fun es => ∀ a ∈ es, P a) literal named unary
    binary choice call ?_ ?_ e
  · intro a ha
    cases ha
  · intro a es ha hes b hb
    rcases List.mem_cons.mp hb with rfl | hb
    · exact ha
    · exact hes b hb

/-- A property that every formula inherits from its parts, however many there are, holds of all
formulas. -/
theorem induction_children {P : Expr → Prop} (h : ∀ e, (∀ a ∈ e.children, P a) → P e) (e : Expr) :
    P e := by
  induction e using Expr.induction with
  | literal x => exact h _ (by simp [children])
  | named name => exact h _ (by simp [children])
  | unary op a ha => exact h _ (by simp [children, ha])
  | binary op a b ha hb => exact h _ (by simp [children, ha, hb])
  | choice c a b hc ha hb => exact h _ (by simp [children, hc, ha, hb])
  | call name args hargs => exact h _ (by simpa [children] using hargs)

/-! ## The nodes of a formula -/

/-- Formulas one after another are walked one after another. -/
theorem walk_append (xs ys : List Expr) : walk (xs ++ ys) = walk xs ++ walk ys := by
  induction xs using walk.induct with
  | case1 => simp [walk]
  | case2 e xs ih =>
    rw [List.cons_append, walk, walk, ← List.append_assoc, ih, List.cons_append]

/-- A walk visits the nodes of each formula in turn. -/
theorem walk_eq_flatMap (xs : List Expr) : walk xs = xs.flatMap nodes := by
  induction xs with
  | nil => simp [walk]
  | cons e xs ih =>
    have h := walk_append [e] xs
    rw [List.singleton_append] at h
    rw [h, ih, List.flatMap_cons, nodes]

/-- A formula comes before the nodes of its parts, which are listed from left to right. -/
theorem nodes_eq (e : Expr) : e.nodes = e :: e.children.flatMap nodes := by
  rw [nodes, walk, List.append_nil, walk_eq_flatMap]

/-- A number has one node. -/
@[simp] theorem nodes_literal (x : Finite) : (literal x).nodes = [literal x] := by
  rw [nodes_eq]
  simp [children]

/-- A variable has one node. -/
@[simp] theorem nodes_variable (name : String) :
    (Expr.variable name).nodes = [Expr.variable name] := by
  rw [nodes_eq]
  simp [children]

/-- A unary operation is visited before its operand. -/
@[simp] theorem nodes_unary (op : UnaryOp) (a : Expr) :
    (unary op a).nodes = unary op a :: a.nodes := by
  rw [nodes_eq]
  simp [children]

/-- A binary operation is visited before its operands, from left to right. -/
@[simp] theorem nodes_binary (op : BinaryOp) (a b : Expr) :
    (binary op a b).nodes = binary op a b :: (a.nodes ++ b.nodes) := by
  rw [nodes_eq]
  simp [children]

/-- A choice is visited before its parts, as they are written. -/
@[simp] theorem nodes_choice (c a b : Expr) :
    (choice c a b).nodes = choice c a b :: (c.nodes ++ (a.nodes ++ b.nodes)) := by
  rw [nodes_eq]
  simp [children]

/-- A call is visited before its arguments, from left to right. -/
@[simp] theorem nodes_call (name : String) (args : List Expr) :
    (call name args).nodes = call name args :: args.flatMap nodes := by
  rw [nodes_eq]
  simp [children]

/-- Whether a property holds of every node of a formula. -/
def Everywhere (P : Expr → Prop) (e : Expr) : Prop := ∀ n ∈ e.nodes, P n

section Everywhere

variable (P : Expr → Prop)

/-- A number has a property everywhere if it has it. -/
@[simp] theorem everywhere_literal (x : Finite) :
    (literal x).Everywhere P ↔ P (literal x) := by
  simp [Everywhere]

/-- A variable has a property everywhere if it has it. -/
@[simp] theorem everywhere_variable (name : String) :
    (Expr.variable name).Everywhere P ↔ P (Expr.variable name) := by
  simp [Everywhere]

/-- A unary operation has a property everywhere if it has it and its operand has it everywhere. -/
@[simp] theorem everywhere_unary (op : UnaryOp) (a : Expr) :
    (unary op a).Everywhere P ↔ P (unary op a) ∧ a.Everywhere P := by
  simp [Everywhere]

/-- A binary operation has a property everywhere if it does and its operands have it everywhere. -/
@[simp] theorem everywhere_binary (op : BinaryOp) (a b : Expr) :
    (binary op a b).Everywhere P ↔ P (binary op a b) ∧ a.Everywhere P ∧ b.Everywhere P := by
  simp [Everywhere, or_imp, forall_and]

/-- A choice has a property everywhere if it has it and its parts have it everywhere. -/
@[simp] theorem everywhere_choice (c a b : Expr) :
    (choice c a b).Everywhere P ↔
      P (choice c a b) ∧ c.Everywhere P ∧ a.Everywhere P ∧ b.Everywhere P := by
  simp [Everywhere, or_imp, forall_and]

/-- A call has a property everywhere if it has it and its arguments have it everywhere. -/
@[simp] theorem everywhere_call (name : String) (args : List Expr) :
    (call name args).Everywhere P ↔ P (call name args) ∧ ∀ a ∈ args, a.Everywhere P := by
  simp only [Everywhere, nodes_call, List.mem_cons, List.mem_flatMap, forall_eq_or_imp]
  constructor
  · rintro ⟨h, hargs⟩
    exact ⟨h, fun a ha n hn => hargs n ⟨a, ha, hn⟩⟩
  · rintro ⟨h, hargs⟩
    exact ⟨h, fun n ⟨a, ha, hn⟩ => hargs a ha n hn⟩

end Everywhere

/-- What holds everywhere may be replaced by something weaker. -/
theorem Everywhere.mono {P Q : Expr → Prop} {e : Expr} (h : e.Everywhere P)
    (hPQ : ∀ n, P n → Q n) : e.Everywhere Q :=
  fun n hn => hPQ n (h n hn)

/-! ## The depth of a formula -/

mutual

/-- One for a formula without parts, and otherwise one more than the greatest height of a part. -/
def height : Expr → Nat
  | .literal _ | .variable _ => 1
  | .unary _ a => a.height + 1
  | .binary _ a b => max a.height b.height + 1
  | .choice c a b => max c.height (max a.height b.height) + 1
  | .call _ args => greatestHeight args + 1

/-- The greatest height among several formulas, or zero if there are none. -/
def greatestHeight : List Expr → Nat
  | [] => 0
  | a :: rest => max a.height (greatestHeight rest)

end

/-- A formula is one higher than its highest part. -/
theorem height_eq (e : Expr) : e.height = greatestHeight e.children + 1 := by
  cases e <;> simp [height, children, greatestHeight]

/-- None of several formulas is higher than the greatest height among them. -/
theorem height_le_greatestHeight {a : Expr} {es : List Expr} (h : a ∈ es) :
    a.height ≤ greatestHeight es := by
  induction es with
  | nil => cases h
  | cons e es ih =>
    rw [greatestHeight]
    rcases List.mem_cons.mp h with rfl | h
    · exact Nat.le_max_left _ _
    · exact Nat.le_trans (ih h) (Nat.le_max_right _ _)

/-- The greatest height is at most what each of several formulas has at most. -/
theorem greatestHeight_le {es : List Expr} {n : Nat} (h : ∀ a ∈ es, a.height ≤ n) :
    greatestHeight es ≤ n := by
  induction es with
  | nil => exact Nat.zero_le n
  | cons e es ih =>
    rw [greatestHeight]
    exact Nat.max_le.mpr ⟨h e List.mem_cons_self, ih fun a ha => h a (List.mem_cons_of_mem e ha)⟩

/-- The order of formulas does not matter to their greatest height. -/
theorem greatestHeight_reverse (es : List Expr) :
    greatestHeight es.reverse = greatestHeight es := by
  refine Nat.le_antisymm (greatestHeight_le fun a ha => ?_) (greatestHeight_le fun a ha => ?_)
  · exact height_le_greatestHeight (List.mem_reverse.mp ha)
  · exact height_le_greatestHeight (List.mem_reverse.mpr ha)

/-- The greatest height among several formulas is the maximum of their heights. -/
theorem greatestHeight_eq_max (es : List Expr) :
    greatestHeight es = (es.map height).max?.getD 0 := by
  induction es with
  | nil => rfl
  | cons e es ih =>
    rw [greatestHeight, ih, List.map_cons, List.max?_cons]
    cases (es.map height).max? with
    | none => simp
    | some m => simp

/-- A pending formula contributes its height to the depth at which it stands. -/
def reach (p : Expr × Nat) : Nat := p.2 + p.1.height - 1

/-- Pending formulas that all stand at one depth reach as deep as the highest of them. -/
theorem foldl_reach_map (es : List Expr) (d found : Nat) (hd : 1 ≤ d) (hf : d ≤ found + 1) :
    ((es.map (·, d)).map reach).foldl max found = max found (d + greatestHeight es - 1) := by
  induction es generalizing found with
  | nil =>
    simp only [List.map_nil, List.foldl_nil, greatestHeight]
    omega
  | cons e es ih =>
    have hstep := ih (max found (reach (e, d))) (by omega)
    simp only [List.map_cons, List.foldl_cons, greatestHeight]
    rw [hstep]
    simp only [reach]
    omega

/-- The work list for the depth finds the deepest that a pending formula reaches. -/
theorem deepest_eq (found : Nat) (pending : List (Expr × Nat)) (h : ∀ p ∈ pending, 1 ≤ p.2) :
    deepest found pending = (pending.map reach).foldl max found := by
  induction found, pending using deepest.induct with
  | case1 found => simp [deepest]
  | case2 found e d pending ih =>
    have hd : 1 ≤ d := h (e, d) List.mem_cons_self
    have hall : ∀ p ∈ (e.children.map (·, d + 1)).reverse ++ pending, 1 ≤ p.2 := by
      intro p hp
      rcases List.mem_append.mp hp with hp | hp
      · obtain ⟨c, -, rfl⟩ := List.mem_map.mp (List.mem_reverse.mp hp)
        exact Nat.le_add_left 1 d
      · exact h p (List.mem_cons_of_mem _ hp)
    rw [deepest, ih hall, List.map_append, List.foldl_append, ← List.map_reverse,
      foldl_reach_map e.children.reverse (d + 1) (max found d) (by omega) (by omega),
      greatestHeight_reverse, List.map_cons, List.foldl_cons, reach, height_eq e]
    congr 1
    omega

/-- The depth that is counted with a list of work is the height. -/
theorem depth_eq_height (e : Expr) : e.depth = e.height := by
  have hpos : 1 ≤ e.height := by
    rw [height_eq]
    omega
  rw [depth, deepest_eq 0 [(e, 1)] (by simp), List.map_singleton, List.foldl_cons, List.foldl_nil,
    reach]
  simp only
  omega

/-- The depth of a formula is one more than the greatest depth of a part, if it has parts. -/
theorem depth_eq (e : Expr) : e.depth = 1 + (e.children.map depth).max?.getD 0 := by
  have hdepth : depth = height := funext depth_eq_height
  rw [hdepth, height_eq, greatestHeight_eq_max, Nat.add_comm]

/-! ## The variables of a formula -/

mutual

/-- The variables in a formula from left to right, each as often as it stands there. -/
def variableLeaves : Expr → List String
  | .literal _ => []
  | .variable name => [name]
  | .unary _ a => a.variableLeaves
  | .binary _ a b => a.variableLeaves ++ b.variableLeaves
  | .choice c a b => c.variableLeaves ++ a.variableLeaves ++ b.variableLeaves
  | .call _ args => allVariableLeaves args

/-- The variables in several formulas from left to right. -/
def allVariableLeaves : List Expr → List String
  | [] => []
  | a :: rest => a.variableLeaves ++ allVariableLeaves rest

end

/-- The variables of several formulas stand one formula after another. -/
theorem allVariableLeaves_eq_flatMap (es : List Expr) :
    allVariableLeaves es = es.flatMap variableLeaves := by
  induction es with
  | nil => rfl
  | cons e es ih => rw [allVariableLeaves, ih, List.flatMap_cons]

/-- The variables among the nodes of a formula are its leaves from left to right. -/
theorem filterMap_variableName?_nodes (e : Expr) :
    e.nodes.filterMap variableName? = e.variableLeaves := by
  induction e using Expr.induction with
  | literal x => simp [variableName?, variableLeaves]
  | named name => simp [variableName?, variableLeaves]
  | unary op a iha => simp [List.filterMap_cons, variableName?, variableLeaves, iha]
  | binary op a b iha ihb => simp [List.filterMap_cons, variableName?, variableLeaves, iha, ihb]
  | choice c a b ihc iha ihb =>
    simp [List.filterMap_cons, variableName?, variableLeaves, ihc, iha, ihb]
  | call name args ih =>
    simp only [nodes_call, List.filterMap_cons, variableName?, List.filterMap_flatMap,
      variableLeaves, allVariableLeaves_eq_flatMap]
    exact List.flatMap_congr ih

/-- A variable has no parts. -/
theorem children_of_variableName? {e : Expr} {name : String} (h : e.variableName? = some name) :
    e.children = [] := by
  cases e with
  | «variable» => rfl
  | _ => cases h

/-- The work list for the variables adds those among the nodes that it visits, one by one. -/
theorem collect_eq_foldl (found : List String) (pending : List Expr) :
    collect found pending = ((walk pending).filterMap variableName?).foldl appendNew found := by
  induction found, pending using collect.induct with
  | case1 found => simp [collect, walk]
  | case2 found e pending name hname ih =>
    rw [collect, hname, walk, children_of_variableName? hname, List.filterMap_cons_some hname,
      List.foldl_cons, List.nil_append]
    exact ih
  | case3 found e pending hname ih =>
    rw [collect, hname, walk, List.filterMap_cons_none hname]
    exact ih

/-- The variables of a formula are the first occurrences among its nodes. -/
theorem variableNames_eq (e : Expr) :
    e.variableNames = firstOccurrences (e.nodes.filterMap variableName?) := by
  rw [variableNames, collect_eq_foldl, foldl_appendNew, nodes]
  simp

/-- The variables of a formula are listed where they first occur from left to right. -/
theorem listsFirst_variableNames (e : Expr) : ListsFirst e.variableNames e.variableLeaves := by
  rw [listsFirst_iff, variableNames_eq, filterMap_variableName?_nodes]

end Expr

end PayrollFormula
