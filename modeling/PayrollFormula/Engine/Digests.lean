import PayrollFormula.Formula.Frames
import PayrollFormula.Formula.Printed
import PayrollFormula.Text.Sha256

/-!
# Hashes of formulas

A formula is identified by the hash of its canonical text. Writing the text out takes a walk over
the whole formula, which may overflow the stack, so an engine keeps the hashes that it has computed
last. It keeps them by the addresses of the trees: a tree that is kept stays in memory, and so no
other tree can come to have its address.
-/

set_option autoImplicit false

namespace PayrollFormula

namespace Expr

/-- How many frames there are for writing a formula out. Of a thousand, the caller, the operation,
its report, the search for the hash and the writer have taken one each. -/
def writingFrames : Nat := 1000 - 5

/-- Whether a formula can be written out without an overflow of the stack. -/
def IsWritable (e : Expr) : Prop := e.frames .writing ≤ writingFrames

instance (e : Expr) : Decidable e.IsWritable := inferInstanceAs (Decidable (_ ≤ _))

/-- The hash of the canonical text of a formula. -/
def digest (e : Expr) : String := textDigest e.text

end Expr

/-- A formula in memory. The same formula may be there several times, at different addresses. -/
structure Tree where
  address : Nat
  expr : Expr
deriving Repr

/-- A tree that is kept under its address, and the hash of its text. -/
structure Kept where
  key : Nat
  tree : Tree
  digest : String
  key_eq : key = tree.address
  digest_eq : digest = tree.expr.digest

/-- What is kept of a tree. -/
def Kept.ofTree (tree : Tree) : Kept := ⟨tree.address, tree, tree.expr.digest, rfl, rfl⟩

/-- How many hashes an engine keeps. -/
def Digests.capacity : Nat := 1024

/-- The hashes that an engine keeps, the oldest first. -/
structure Digests where
  kept : List Kept
  length_le : kept.length ≤ Digests.capacity

namespace Digests

/-- No hashes. -/
def empty : Digests := ⟨[], Nat.zero_le _⟩

/-- The hash that is kept for a tree. What is under the tree's address has to be that tree. -/
def find? (d : Digests) (tree : Tree) : Option String :=
  match d.kept.find? (·.key = tree.address) with
  | some k => if k.tree.address = tree.address then some k.digest else none
  | none => none

/-- Puts an entry in the place of the one with its key, or at the end. -/
def put (entry : Kept) : List Kept → List Kept
  | [] => [entry]
  | k :: rest => if k.key = entry.key then entry :: rest else k :: put entry rest

/-- An entry takes at most one more place. -/
theorem length_put_le (entry : Kept) (ks : List Kept) :
    (put entry ks).length ≤ ks.length + 1 := by
  induction ks with
  | nil => exact Nat.le_refl 1
  | cons k rest ih =>
    unfold put
    split
    · exact Nat.le_succ _
    · exact Nat.succ_le_succ ih

/-- What stays when there has to be room for one more. The oldest entry goes if there is none. -/
def older (d : Digests) : List Kept := if capacity ≤ d.kept.length then d.kept.tail else d.kept

/-- There is room for one more beside what stays. -/
theorem length_older_lt (d : Digests) : d.older.length < capacity := by
  have hle := d.length_le
  have hpos : 0 < capacity := by decide
  unfold older
  split
  · rw [List.length_tail]
    omega
  · omega

/-- Keeps one more entry. -/
def add (d : Digests) (entry : Kept) : Digests where
  kept := put entry d.older
  length_le := Nat.le_trans (length_put_le entry d.older) d.length_older_lt

/-- The hash of a tree's text, and the hashes that are kept then. There is none if the hash is not
kept and the stack overflows while the text is written out. -/
def digest? (d : Digests) (tree : Tree) : Option String × Digests :=
  match d.find? tree with
  | some hash => (some hash, d)
  | none =>
    if tree.expr.IsWritable then
      let entry := Kept.ofTree tree
      (some entry.digest, d.add entry)
    else (none, d)

end Digests

end PayrollFormula
