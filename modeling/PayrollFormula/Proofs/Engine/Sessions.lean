import PayrollFormula.Engine.Request
import PayrollFormula.Proofs.Engine.Digests

/-!
# The trees of a session

An engine finds the hash of a tree by the tree's address, and so it finds the right one as long as
the trees that stay in memory have addresses of their own. `Session.Sound` says that they do, and
that the trees with a name can be written out. It holds when a session begins (`sound_ofEngine`),
every request keeps it (`Sound.respond`), and so do all of them one after another
(`Sound.respondAll`).
-/

set_option autoImplicit false

namespace PayrollFormula

/-! ## Trees with addresses of their own -/

namespace Tree

/-- Whether trees are told apart by their addresses. -/
def Distinct (ts : List Tree) : Prop := ∀ t ∈ ts, ∀ t' ∈ ts, t.address = t'.address → t = t'

variable {ts ts' : List Tree}

/-- Trees are told apart among fewer, too. -/
theorem Distinct.mono (h : Distinct ts) (hsub : ∀ t ∈ ts', t ∈ ts) : Distinct ts' :=
  fun t ht t' ht' => h t (hsub t ht) t' (hsub t' ht')

/-- A tree at an address that is not taken is told from all others. -/
theorem Distinct.cons {t : Tree} (h : Distinct ts) (hnew : t.address ∉ ts.map (·.address)) :
    Distinct (t :: ts) := by
  intro a ha b hb hab
  rcases List.mem_cons.mp ha with rfl | ha' <;> rcases List.mem_cons.mp hb with rfl | hb'
  · rfl
  · exact absurd (hab ▸ List.mem_map_of_mem hb') hnew
  · exact absurd (hab ▸ List.mem_map_of_mem ha') hnew
  · exact h a ha' b hb' hab

end Tree

/-! ## What an operation leaves -/

namespace Engine

/-- Whether an engine is what another one can become when it meets some trees: it has the same
settings, and keeps hashes of no other trees than of those and of the ones it kept before. -/
structure Follows (ts : List Tree) (en en' : Engine) : Prop where
  settings_eq : en'.settings = en.settings
  tree_mem : ∀ k ∈ en'.digests.kept, k.tree ∈ ts ∨ k.tree ∈ en.digests.kept.map (·.tree)

variable {en en' en'' : Engine} {ts : List Tree}

/-- An engine that keeps the hashes that it had, and its settings. -/
theorem follows_of_eq (hsettings : en'.settings = en.settings) (hdigests : en'.digests = en.digests)
    (ts : List Tree) : en.Follows ts en' where
  settings_eq := hsettings
  tree_mem := by
    intro k hk
    rw [hdigests] at hk
    exact .inr (List.mem_map_of_mem hk)

/-- An engine that follows another evaluates formulas in the same way. -/
theorem Follows.evaluator_eq (h : en.Follows ts en') : en'.evaluator = en.evaluator := by
  unfold evaluator
  rw [h.settings_eq]

/-- What follows an engine that follows another follows the other. -/
theorem Follows.trans (h : en.Follows ts en') (h' : en'.Follows ts en'') : en.Follows ts en'' where
  settings_eq := h'.settings_eq.trans h.settings_eq
  tree_mem := by
    intro k hk
    rcases h'.tree_mem k hk with hk | hk
    · exact .inl hk
    · obtain ⟨k', hk', htree⟩ := List.mem_map.mp hk
      rw [← htree]
      exact h.tree_mem k' hk'

/-- Recording an event changes neither the settings nor the hashes that are kept. -/
theorem follows_record (en : Engine) (e : Event) (run : Option String) (ts : List Tree) :
    en.Follows ts (en.record e run) := by
  apply follows_of_eq <;> rfl

/-- Looking for the hash of a tree keeps at most that of the tree more. -/
theorem follows_digest (en : Engine) (tree : Tree) : en.Follows [tree] (en.digest tree).2 where
  settings_eq := rfl
  tree_mem := by
    intro k hk
    rcases Digests.mem_digest? hk with rfl | hk
    · exact .inl List.mem_cons_self
    · exact .inr (List.mem_map_of_mem hk)

section Reporting

variable {ε α : Type} (result : Except ε α) (tree : Option Tree) (event : Option String → Event)
  (run : Option String)

/-- Without a journal nothing is reported. -/
theorem reporting_of_no_journal (hj : en.journal = none) :
    en.reporting result tree event run = (result.mapError .own, en) := by
  unfold reporting
  simp only [hj]

/-- The absence of a tree is reported without a hash. -/
theorem reporting_absence {j : Journal} (hj : en.journal = some j) :
    en.reporting result none event run =
      (result.mapError .own, en.record (event none) run) := by
  unfold reporting
  simp only [hj]

/-- A result is reported under the hash of its tree, if that is found. -/
theorem reporting_of_some {j : Journal} {t : Tree} {hash : String} (hj : en.journal = some j)
    (h : (en.digest t).1 = some hash) :
    en.reporting result (some t) event run =
      (result.mapError .own, (en.digest t).2.record (event (some hash)) run) := by
  have hdigest : en.digest t = (some hash, (en.digest t).2) := Prod.ext h rfl
  unfold reporting
  simp only [hj]
  rw [hdigest]

/-- If the stack overflows, the result is lost, and nothing is logged or kept. -/
theorem reporting_of_none {j : Journal} {t : Tree} (hj : en.journal = some j)
    (h : (en.digest t).1 = none) :
    en.reporting result (some t) event run = (.error .overflow, en) := by
  have hdigest : en.digest t = (none, en) := by
    rw [digest, (Digests.digest?_of_none h).2]
  unfold reporting
  simp only [hj]
  rw [hdigest]

/-- If its address tells a tree from those that are kept, the report about it goes to the journal
under the hash of its text, unless the tree cannot be written out: then nothing changes. -/
theorem reporting_cases (en : Engine) (htells : ∀ t ∈ tree, en.digests.Tells t) :
    (en.reporting result tree event run).1 = result.mapError .own ∧
        (en.reporting result tree event run).2.journal =
          en.journal.map (·.emit (event (tree.map (·.expr.digest))) run) ∨
      (∃ t ∈ tree, ¬ t.expr.IsWritable) ∧
        en.reporting result tree event run = (.error .overflow, en) := by
  cases hj : en.journal with
  | none =>
    rw [reporting_of_no_journal result tree event run hj]
    exact .inl ⟨rfl, hj⟩
  | some j =>
    cases tree with
    | none =>
      rw [reporting_absence result event run hj]
      exact .inl ⟨rfl, congrArg (Option.map _) hj⟩
    | some t =>
      cases hfound : (en.digest t).1 with
      | none =>
        have hdeep := (Digests.digest?_of_none hfound).1
        exact .inr ⟨⟨t, rfl, hdeep⟩, reporting_of_none result event run hj hfound⟩
      | some hash =>
        have hhash : hash = t.expr.digest := Digests.eq_of_digest? (htells t rfl) hfound
        rw [reporting_of_some result event run hj hfound, hhash]
        exact .inl ⟨rfl, congrArg (Option.map _) hj⟩

/-- A result that is reported is not lost, provided that the tree it is about can be written out. -/
theorem fst_reporting (en : Engine) (h : ∀ t ∈ tree, t.expr.IsWritable) :
    (en.reporting result tree event run).1 = result.mapError .own := by
  cases hj : en.journal with
  | none => rw [reporting_of_no_journal result tree event run hj]
  | some j =>
    cases tree with
    | none => rw [reporting_absence result event run hj]
    | some t =>
      obtain ⟨hash, hfound⟩ := en.digests.exists_digest? (h t rfl)
      rw [reporting_of_some result event run hj hfound]

/-- Reporting about a tree keeps at most the hash of the tree more. -/
theorem follows_reporting (en : Engine) :
    en.Follows tree.toList (en.reporting result tree event run).2 := by
  unfold reporting
  split
  · exact follows_of_eq rfl rfl _
  · exact follows_record en _ _ _
  next tree _ =>
    have hfollows := en.follows_digest tree
    split
    next heq =>
      rw [heq] at hfollows
      exact hfollows.trans (follows_record _ _ _ _)
    next heq =>
      rw [heq] at hfollows
      exact hfollows

end Reporting

/-! ## The operations -/

section Operations

variable (en : Engine) (now : Moment) (address : Nat) (text bindings : Value)
  (run formulaId : Option String)

/-- A text that is not read fails with what the reader says. -/
theorem parse_of_error {err : ParseError}
    (h : Formula.parseValue en.settings.limits text = .error err) :
    en.parse now address text formulaId =
      (.error (.own err), en.record (parseFailedEvent now text formulaId err) none) := by
  simp only [parse, h]

/-- A text that is read gives a tree at the address. -/
theorem parse_of_ok {e : Expr} (h : Formula.parseValue en.settings.limits text = .ok e) :
    en.parse now address text formulaId =
      (.ok ⟨address, e⟩, (en.parse now address text formulaId).2) := by
  simp only [parse, h]
  exact Prod.ext (en.fst_reporting _ _ _ _ (Formula.isWritable_tree h address)) rfl

/-- Reading a text, an engine meets no tree but the one that it reads. -/
theorem follows_parse :
    en.Follows
      ((Formula.parseValue en.settings.limits text).toOption.map (Tree.mk address)).toList
      (en.parse now address text formulaId).2 := by
  unfold parse
  cases Formula.parseValue en.settings.limits text with
  | error err => exact en.follows_record _ _ _
  | ok e => exact en.follows_reporting _ _ _ _

/-- A tree that can be written out is evaluated as without reports. -/
theorem fst_execute {tree : Option Tree} (h : ∀ t ∈ tree, t.expr.IsWritable) :
    (en.execute now tree bindings run formulaId).1 =
      (en.evaluator.run (partOf (tree.map (·.expr))) bindings).mapError .own :=
  en.fst_reporting _ _ _ _ h

/-- Evaluating a tree, an engine meets no other tree. -/
theorem follows_execute (tree : Option Tree) :
    en.Follows tree.toList (en.execute now tree bindings run formulaId).2 :=
  en.follows_reporting _ _ _ _

/-- A text that is not read is not evaluated. -/
theorem evaluate_of_error {err : ParseError}
    (h : Formula.parseValue en.settings.limits text = .error err) :
    en.evaluate now address text bindings run formulaId =
      (.error (.own (.parse err)), (en.parse now address text formulaId).2) := by
  simp only [evaluate, en.parse_of_error now address text formulaId h, Fault.map]

/-- The tree of a text that was read is evaluated as the engine does that has read it. -/
theorem fst_execute_parse {e : Expr} (h : Formula.parseValue en.settings.limits text = .ok e)
    (later : Moment) (formulaId' : Option String) :
    ((en.parse now address text formulaId).2.execute later (some ⟨address, e⟩) bindings run
        formulaId').1 =
      (en.evaluator.run (.formula e) bindings).mapError .own := by
  have hfollows := en.follows_parse now address text formulaId
  rw [fst_execute _ _ _ _ _ (Formula.isWritable_tree h address), hfollows.evaluator_eq]
  rfl

/-- A text that is read is evaluated by the engine that has read it. -/
theorem evaluate_of_ok {e : Expr} (h : Formula.parseValue en.settings.limits text = .ok e) :
    en.evaluate now address text bindings run formulaId =
      ((en.parse now address text formulaId).2.execute now (some ⟨address, e⟩) bindings run
        formulaId).map (·.mapError (·.map .eval)) id := by
  rw [evaluate, en.parse_of_ok now address text formulaId h]
  rfl

/-- An evaluation of a text that can or cannot be read has the result of the calculation. -/
theorem fst_evaluate :
    (en.evaluate now address text bindings run formulaId).1 =
      (Formula.calculate en.settings.limits en.evaluator text bindings).mapError .own := by
  unfold Formula.calculate
  cases h : Formula.parseValue en.settings.limits text with
  | error err =>
    rw [en.evaluate_of_error now address text bindings run formulaId h]
    rfl
  | ok e =>
    rw [en.evaluate_of_ok now address text bindings run formulaId h, Prod.map_fst,
      en.fst_execute_parse now address text bindings run formulaId h]
    simp only
    cases en.evaluator.run (.formula e) bindings <;> rfl

/-- Evaluating a text, an engine meets no tree but the one that it reads. -/
theorem follows_evaluate :
    en.Follows
      ((Formula.parseValue en.settings.limits text).toOption.map (Tree.mk address)).toList
      (en.evaluate now address text bindings run formulaId).2 := by
  have hparse := en.follows_parse now address text formulaId
  cases h : Formula.parseValue en.settings.limits text with
  | error err =>
    rw [h] at hparse
    rw [en.evaluate_of_error now address text bindings run formulaId h]
    exact hparse
  | ok e =>
    rw [h] at hparse
    rw [en.evaluate_of_ok now address text bindings run formulaId h]
    exact hparse.trans (follows_execute _ _ _ _ _ _)

end Operations

end Engine

/-! ## One request and many -/

namespace Session

/-- Whether the trees of a session are as they should be: those that stay in memory, be it with a
name or for their hash, are told apart by their addresses, and those with a name can be written
out. -/
structure Sound (s : Session) : Prop where
  distinct : Tree.Distinct s.live
  writable : ∀ p ∈ s.trees, p.2.expr.IsWritable

variable {s : Session}

/-- A session with an engine that keeps no hashes begins as it should. -/
theorem sound_ofEngine {en : Engine} (h : en.digests = .empty) : (ofEngine en).Sound where
  distinct := by
    simp [Tree.Distinct, live, ofEngine, h, Digests.empty]
  writable := by simp [ofEngine]

/-- A session with new settings begins as it should. -/
theorem sound_start (settings : Settings) (journal : Option Journal) :
    (start settings journal).Sound :=
  sound_ofEngine rfl

/-- A tree with a name is one of those that stay in memory. -/
theorem mem_live_of_tree? {name : String} {tree : Tree} (h : s.tree? name = some tree) :
    (name, tree) ∈ s.trees ∧ tree ∈ s.live := by
  obtain ⟨p, hp, rfl⟩ := Option.map_eq_some_iff.mp h
  obtain rfl : p.1 = name := by simpa using List.find?_some hp
  have hmem : p ∈ s.trees := List.mem_of_find?_eq_some hp
  exact ⟨hmem, List.mem_append_left _ (List.mem_map_of_mem hmem)⟩

/-- The address of a tree with a name tells it from the trees whose hashes are kept. -/
theorem Sound.tells (h : s.Sound) {name : String} {tree : Tree} (htree : s.tree? name = some tree) :
    s.engine.digests.Tells tree := by
  intro k hk
  have hlive : k.tree ∈ s.live := List.mem_append_right _ (List.mem_map_of_mem hk)
  exact h.distinct k.tree hlive tree (mem_live_of_tree? htree).2

/-- A session stays as it should be when its engine meets trees that are told from all others, and
some of them are named. -/
theorem Sound.next (h : s.Sound) {ts : List Tree} {en : Engine} {trees : List (String × Tree)}
    (hfollows : s.engine.Follows ts en) (hdistinct : Tree.Distinct (ts ++ s.live))
    (htrees : ∀ p ∈ trees, p.2 ∈ ts ∧ p.2.expr.IsWritable ∨ p ∈ s.trees) :
    Sound ⟨en, trees⟩ where
  distinct := by
    refine hdistinct.mono fun t ht => ?_
    rcases List.mem_append.mp ht with ht | ht
    · obtain ⟨p, hp, rfl⟩ := List.mem_map.mp ht
      rcases htrees p hp with ⟨hp, -⟩ | hp
      · exact List.mem_append_left _ hp
      · exact List.mem_append_right _ (List.mem_append_left _ (List.mem_map_of_mem hp))
    · obtain ⟨k, hk, rfl⟩ := List.mem_map.mp ht
      rcases hfollows.tree_mem k hk with hk | hk
      · exact List.mem_append_left _ hk
      · exact List.mem_append_right _ (List.mem_append_right _ hk)
  writable := by
    intro p hp
    rcases htrees p hp with ⟨-, hp⟩ | hp
    · exact hp
    · exact h.writable p hp

/-- A session stays as it should be when its engine meets no trees but those that it has. -/
theorem Sound.stays (h : s.Sound) {ts : List Tree} {en : Engine} (hfollows : s.engine.Follows ts en)
    (hlive : ∀ t ∈ ts, t ∈ s.live) : Sound ⟨en, s.trees⟩ := by
  refine h.next hfollows (h.distinct.mono fun t ht => ?_) fun p hp => .inr hp
  exact (List.mem_append.mp ht).elim (hlive t) id

/-- A new tree is told from all others. -/
theorem Sound.distinct_new (h : s.Sound) (memory : Allocator) (e : Option Expr) :
    Tree.Distinct ((e.map (Tree.mk (s.address memory))).toList ++ s.live) := by
  cases e with
  | none => exact h.distinct
  | some e => exact h.distinct.cons (memory.place_notMem _)

/-- Every request keeps a session as it should be. -/
theorem Sound.respond (h : s.Sound) (around : Surroundings) (request : Request) :
    (s.respond around request).2.Sound := by
  cases request with
  | parse text name formulaId =>
    have hfollows :=
      s.engine.follows_parse around.now (s.address around.memory) text formulaId
    have hdistinct := h.distinct_new around.memory
      (Formula.parseValue s.engine.settings.limits text).toOption
    cases hread : Formula.parseValue s.engine.settings.limits text with
    | error err =>
      rw [hread] at hfollows hdistinct
      rw [s.engine.parse_of_error _ _ _ _ hread] at hfollows
      rw [Session.respond, s.engine.parse_of_error _ _ _ _ hread]
      exact h.next hfollows hdistinct fun p hp => .inr hp
    | ok e =>
      rw [hread] at hfollows hdistinct
      rw [Session.respond, s.engine.parse_of_ok _ _ _ _ hread]
      refine h.next hfollows hdistinct fun p hp => ?_
      -- A name is either that of the tree that was just read, or it was given before.
      rcases List.mem_cons.mp hp with rfl | hp
      · exact .inl ⟨List.mem_cons_self, Formula.isWritable_of_parseValue hread⟩
      · exact .inr (List.mem_of_mem_filter hp)
  | execute name bindings run formulaId =>
    refine h.stays (s.engine.follows_execute around.now bindings run formulaId (s.tree? name)) ?_
    intro t ht
    exact (mem_live_of_tree? (Option.mem_toList.mp ht)).2
  | evaluate text bindings run formulaId =>
    exact h.next (s.engine.follows_evaluate _ _ _ _ _ _) (h.distinct_new _ _) fun p hp => .inr hp
  | validate text known =>
    exact h.stays (s.engine.follows_record _ _ []) (by simp)
  | trial text bindings => exact h
  | digest name =>
    cases htree : s.tree? name with
    | none =>
      simp only [Session.respond, htree]
      exact h
    | some tree =>
      simp only [Session.respond, htree]
      refine h.stays (s.engine.follows_digest tree) ?_
      intro t ht
      rw [List.mem_singleton.mp ht]
      exact (mem_live_of_tree? htree).2

/-- Requests, one after another, keep a session as it should be. -/
theorem Sound.respondAll (h : s.Sound) (around : Nat → Surroundings) (requests : List Request) :
    (s.respondAll around requests).2.Sound := by
  induction requests generalizing s around with
  | nil => exact h
  | cons request rest ih => exact ih (h.respond (around 0) request) _

end Session

end PayrollFormula
