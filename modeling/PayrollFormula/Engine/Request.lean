import PayrollFormula.Engine

/-!
# Requests to an engine

What a client can ask an engine for, and how the engine answers one request after another. A formula
that was read is kept under a name that the client gives it, and is evaluated by that name; under a
name that was not given there is no formula. An answer holds the result of the operation as a whole,
a failure with all its data: if a variable is bound to something that is no number, the answer also
has what it is bound to.
-/

set_option autoImplicit false

namespace PayrollFormula

/-- What is asked of an engine. -/
inductive Request where
  | parse (text : Value) (name : String) (formulaId : Option String)
  | execute (name : String) (bindings : Value) (run formulaId : Option String)
  | evaluate (text bindings : Value) (run formulaId : Option String)
  | validate (text : Value) (known : Option (List String))
  | trial (text bindings : Value)
  | digest (name : String)
deriving Repr

/-- What an engine answers. -/
inductive Answer where
  | tree (result : Except (Fault ParseError) Expr)
  | outcome (result : Except (Fault EvalError) Outcome) (refused : Option Value)
  | value (result : Except (Fault FormulaError) Outcome) (refused : Option Value)
  | validation (v : Validation)
  | trial (t : Trial)
  | digest (result : Except (Fault BuildError) String)

/-- What the variable is bound to that an error refuses, if it refuses one. -/
def EvalError.refused? (bindings : Value) : EvalError → Option Value
  | .invalidVariable name _ =>
    match Evaluator.bindingsOf bindings with
    | .ok fields => Fields.get? fields name
    | .error _ => none
  | _ => none

namespace Answer

/-- The answer that the result of an evaluation under bindings is. -/
def ofOutcome (bindings : Value) : Except (Fault EvalError) Outcome → Answer
  | .error (.own e) => .outcome (.error (.own e)) (e.refused? bindings)
  | result => .outcome result none

/-- The answer that the result of a calculation under bindings is. -/
def ofValue (bindings : Value) : Except (Fault FormulaError) Outcome → Answer
  | .error (.own (.eval e)) => .value (.error (.own (.eval e))) (e.refused? bindings)
  | result => .value result none

/-- The answer that the search for the hash of a tree is. -/
def ofDigest : Option String → Answer
  | some hash => .digest (.ok hash)
  | none => .digest (.error .overflow)

end Answer

/-- Where new trees go in memory: to an address that is not taken. -/
structure Allocator where
  place : List Nat → Nat
  place_notMem : ∀ taken, place taken ∉ taken

/-- The allocator that puts a tree above all others. -/
def Allocator.above : Allocator where
  place taken := taken.max?.getD 0 + 1
  place_notMem _ h := Nat.not_succ_le_self _ (List.le_max?_getD_of_mem h)

/-- What an engine is given for a request from outside: what the clock shows, and where in memory
there is place for a tree. -/
structure Surroundings where
  now : Moment
  memory : Allocator

/-- An engine, and the trees that a client has named. -/
structure Session where
  engine : Engine
  trees : List (String × Tree)

namespace Session

/-- A session with an engine that begins. -/
def ofEngine (en : Engine) : Session := ⟨en, []⟩

/-- A session with an engine with settings that begins. -/
def start (settings : Settings) (journal : Option Journal) : Session :=
  ofEngine (.ofSettings settings journal)

/-- The tree with a name. -/
def tree? (s : Session) (name : String) : Option Tree :=
  (s.trees.find? (·.1 = name)).map (·.2)

/-- Names a tree. It takes the place of the one that had the name. -/
def named (name : String) (tree : Tree) (trees : List (String × Tree)) : List (String × Tree) :=
  (name, tree) :: trees.filter (·.1 ≠ name)

/-- The trees that stay in memory: those with a name and those that the engine keeps. -/
def live (s : Session) : List Tree := s.trees.map (·.2) ++ s.engine.digests.kept.map (·.tree)

/-- Where a new tree goes. -/
def address (s : Session) (memory : Allocator) : Nat := memory.place (s.live.map (·.address))

/-- The answer to a request, and the session after it. -/
def respond (s : Session) (around : Surroundings) : Request → Answer × Session
  | .parse text name formulaId =>
    match s.engine.parse around.now (s.address around.memory) text formulaId with
    | (.ok tree, engine) => (.tree (.ok tree.expr), ⟨engine, named name tree s.trees⟩)
    | (.error e, engine) => (.tree (.error e), { s with engine })
  | .execute name bindings run formulaId =>
    let (result, engine) := s.engine.execute around.now (s.tree? name) bindings run formulaId
    (.ofOutcome bindings result, { s with engine })
  | .evaluate text bindings run formulaId =>
    let (result, engine) :=
      s.engine.evaluate around.now (s.address around.memory) text bindings run formulaId
    (.ofValue bindings result, { s with engine })
  | .validate text known =>
    let (v, engine) := s.engine.validate around.now text known
    (.validation v, { s with engine })
  | .trial text bindings =>
    let (t, engine) := s.engine.trial text bindings
    (.trial t, { s with engine })
  | .digest name =>
    match s.tree? name with
    | none => (.digest (.error (.own (.notFormula Value.null.typeName))), s)
    | some tree =>
      let (hash, engine) := s.engine.digest tree
      (.ofDigest hash, { s with engine })

/-- The answers to requests, one after another, and the session after them. -/
def respondAll (s : Session) (around : Nat → Surroundings) : List Request → List Answer × Session
  | [] => ([], s)
  | request :: rest =>
    let first := s.respond (around 0) request
    let later := first.2.respondAll (fun k => around (k + 1)) rest
    (first.1 :: later.1, later.2)

end Session

end PayrollFormula
