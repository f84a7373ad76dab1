import PayrollFormula.Engine.Digests
import PayrollFormula.Proofs.Formula.Accepted
import PayrollFormula.Proofs.Formula.Frames

/-!
# The hashes that are kept are right

An entry is kept with the hash of the text of its tree, and is found by the tree's address. So a
search for the hash of a tree gives the hash of its text, be it from what is kept or computed anew,
provided that the tree's address tells it from the trees that are kept (`Digests.Tells`). It gives
none only for a formula that is too deep to be written out, which none is that was read from a text.
-/

set_option autoImplicit false

namespace PayrollFormula

/-- What is read from a text can be written out. -/
theorem Formula.isWritable_of_parseValue {limits : Limits} {text : Value} {e : Expr}
    (h : parseValue limits text = .ok e) : e.IsWritable :=
  Nat.le_trans (limits.frames_le Frames.within_writing (height_le_of_parseValue h)) (by decide)

/-- So can the tree that it becomes in memory. -/
theorem Formula.isWritable_tree {limits : Limits} {text : Value} {e : Expr}
    (h : parseValue limits text = .ok e) (address : Nat) :
    ∀ t ∈ some (Tree.mk address e), t.expr.IsWritable := by
  rintro t ⟨⟩
  exact isWritable_of_parseValue h

namespace Digests

variable {d : Digests} {tree : Tree}

/-- Whether the address of a tree tells it from the trees whose hashes are kept. -/
def Tells (d : Digests) (tree : Tree) : Prop :=
  ∀ k ∈ d.kept, k.tree.address = tree.address → k.tree = tree

/-! ## Keeping a hash -/

/-- Nothing is put in place but the entry itself. -/
theorem mem_put {entry k : Kept} {ks : List Kept} (h : k ∈ put entry ks) : k = entry ∨ k ∈ ks := by
  induction ks with
  | nil => exact .inl (List.mem_singleton.mp h)
  | cons k' rest ih =>
    unfold put at h
    split at h
    · exact (List.mem_cons.mp h).imp_right (List.mem_cons_of_mem k')
    · rcases List.mem_cons.mp h with rfl | h
      · exact .inr List.mem_cons_self
      · exact (ih h).imp_right (List.mem_cons_of_mem k')

/-- What is put in place is found under its key. -/
theorem find?_put (entry : Kept) (ks : List Kept) :
    (put entry ks).find? (·.key = entry.key) = some entry := by
  induction ks with
  | nil => simp [put]
  | cons k rest ih =>
    unfold put
    split
    · simp
    · rw [List.find?_cons_of_neg (by simpa)]
      exact ih

/-- The hash that was added is found. -/
theorem find?_add (d : Digests) (entry : Kept) :
    (d.add entry).find? entry.tree = some entry.digest := by
  have hput : (d.add entry).kept.find? (·.key = entry.tree.address) = some entry := by
    rw [← entry.key_eq]
    exact find?_put entry d.older
  rw [find?, hput]
  exact if_pos rfl

/-- What is kept after an entry has been added is that entry, or was kept before. -/
theorem mem_add {entry k : Kept} (h : k ∈ (d.add entry).kept) : k = entry ∨ k ∈ d.kept := by
  refine (mem_put h).imp_right fun h => ?_
  unfold older at h
  split at h
  · exact List.mem_of_mem_tail h
  · exact h

/-! ## Looking for a hash -/

/-- The hash that is kept for a tree is that of its text. -/
theorem eq_of_find? (htells : d.Tells tree) {hash : String} (hfind : d.find? tree = some hash) :
    hash = tree.expr.digest := by
  unfold find? at hfind
  split at hfind
  next k hk =>
    obtain ⟨haddress, rfl⟩ := Option.ite_some_none_eq_some.mp hfind
    -- What is under the address is this very tree, since no other one is there.
    have hsame : k.tree = tree := htells k (List.mem_of_find?_eq_some hk) haddress
    rw [k.digest_eq, hsame]
  next => cases hfind

/-- There is a hash of a tree that can be written out. -/
theorem exists_digest? (d : Digests) (h : tree.expr.IsWritable) :
    ∃ hash, (d.digest? tree).1 = some hash := by
  unfold digest?
  split
  · exact ⟨_, rfl⟩
  · rw [if_pos h]
    exact ⟨_, rfl⟩

/-- A hash that is found is that of the tree's text. -/
theorem eq_of_digest? (htells : d.Tells tree) {hash : String}
    (hfound : (d.digest? tree).1 = some hash) : hash = tree.expr.digest := by
  unfold digest? at hfound
  split at hfound
  next kept hkept =>
    cases hfound
    exact eq_of_find? htells hkept
  next =>
    split at hfound
    · exact (Option.some.inj hfound).symm
    · cases hfound

/-- A tree that can be written out has the hash of its text. -/
theorem fst_digest? (htells : d.Tells tree) (hwritable : tree.expr.IsWritable) :
    (d.digest? tree).1 = some tree.expr.digest := by
  obtain ⟨hash, hfound⟩ := d.exists_digest? hwritable
  rw [hfound, eq_of_digest? htells hfound]

/-- A tree has no hash only if it is not kept and cannot be written out. Then nothing changes. -/
theorem digest?_of_none (h : (d.digest? tree).1 = none) :
    ¬ tree.expr.IsWritable ∧ d.digest? tree = (none, d) := by
  unfold digest? at h ⊢
  split at h
  · cases h
  · split at h
    · cases h
    next hwritable => exact ⟨hwritable, if_neg hwritable⟩

/-- A hash that was looked for is kept for the tree, if it was kept before or not. -/
theorem mem_digest? {k : Kept} (h : k ∈ (d.digest? tree).2.kept) :
    k = .ofTree tree ∨ k ∈ d.kept := by
  unfold digest? at h
  split at h
  · exact .inr h
  · split at h
    · exact mem_add h
    · exact .inr h

/-- What has been found is kept: no tree is written out twice in a row. -/
theorem find?_digest? {hash : String} (h : (d.digest? tree).1 = some hash) :
    (d.digest? tree).2.find? tree = some hash := by
  unfold digest? at h ⊢
  split at h
  next hfind => exact hfind.trans h
  next =>
    split at h
    next hwritable =>
      rw [if_pos hwritable]
      exact (find?_add d (.ofTree tree)).trans h
    next => cases h

end Digests

end PayrollFormula
