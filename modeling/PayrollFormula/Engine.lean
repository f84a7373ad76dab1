import PayrollFormula.Check.Trial
import PayrollFormula.Check.Validation
import PayrollFormula.Engine.Digests
import PayrollFormula.Log.Journal
import PayrollFormula.Settings

/-!
# The engine

An engine reads, evaluates, checks and tries formulas with the limits and tolerances of its
settings, and reports the outcomes to a journal if it has one. Every operation gives its result
together with the engine after it. Writing to a journal never fails, but the event has to be put
together before that: it names a formula by the hash of the formula's text, and an operation fails
if the stack overflows while that text is written out. The clock is read and memory is given
outside: an operation is told when it happens, and where the tree goes that it reads.
-/

set_option autoImplicit false

namespace PayrollFormula

/-- What the clock shows: the time of an event, and how many milliseconds an evaluation took. -/
structure Moment where
  time : String
  duration : Double
deriving DecidableEq, Repr

/-- Why an operation fails: for a reason of its own, or because the stack overflows when its outcome
is to be reported. -/
inductive Fault (ε : Type) where
  | own (e : ε)
  | overflow
deriving DecidableEq, Repr

/-- The failure with its own reason changed. -/
def Fault.map {ε ε' : Type} (f : ε → ε') : Fault ε → Fault ε'
  | .own e => .own (f e)
  | .overflow => .overflow

/-- An engine: its settings, the journal that it reports to, and the hashes of trees that it keeps,
be it for reports or for those who ask for them. -/
structure Engine where
  settings : Settings
  journal : Option Journal
  digests : Digests

namespace Engine

/-- An engine with settings. A journal is of use only if logging is enabled. -/
def ofSettings (settings : Settings) (journal : Option Journal) : Engine :=
  ⟨settings, if settings.loggingEnabled then journal else none, .empty⟩

/-- An engine with the defaults, changed by overrides. -/
def ofOverrides (overrides : Fields) (journal : Option Journal) : Except SettingsError Engine := do
  return ofSettings (← Settings.load "" none overrides) journal

/-- An engine with the settings of a document, if there is one at the given place, and with a
journal of its own if logging is enabled. The settings are loaded again as overrides. -/
def ofDocument (place : String) (document : Option Value) : Except SettingsError Engine := do
  let settings ← Settings.load place document []
  let journal := if settings.loggingEnabled then some ⟨.empty, settings.tailBytes⟩ else none
  ofOverrides settings.toFields journal

/-- How the engine evaluates formulas. -/
def evaluator (en : Engine) : Evaluator := ⟨.ok en.settings.tolerances, Builtin.all⟩

/-- The engine after an event. -/
def record (en : Engine) (e : Event) (run : Option String) : Engine :=
  { en with journal := en.journal.map (·.emit e run) }

/-- The hash of a tree, and the engine after that. -/
def digest (en : Engine) (tree : Tree) : Option String × Engine :=
  let (hash, digests) := en.digests.digest? tree
  (hash, { en with digests })

/-- The result of an operation after the event about it, which has the hash of the tree that the
operation is about. If there is no hash because of an overflow, there is no event, and the operation
fails with that overflow whatever its result was. Without a journal no hash is looked for. -/
def reporting {ε α : Type} (en : Engine) (result : Except ε α) (tree : Option Tree)
    (event : Option String → Event) (run : Option String) : Except (Fault ε) α × Engine :=
  match en.journal, tree with
  | none, _ => (result.mapError .own, en)
  | some _, none => (result.mapError .own, en.record (event none) run)
  | some _, some tree =>
    match en.digest tree with
    | (some hash, en) => (result.mapError .own, en.record (event (some hash)) run)
    | (none, en) => (.error .overflow, en)

/-- An offset in a text, if there is one. -/
def positionValue : Option Nat → Value
  | some p => .int p
  | none => .null

/-- The context of an event about a tree with a hash, or about the absence of one. -/
def treeContext (hash formulaId : Option String) (extra : Fields) : Fields :=
  let attribution : Fields :=
    match hash with
    | some hash => [(Event.hashField, .text hash)]
    | none => []
  Event.formulaContext none formulaId (Fields.update extra attribution)

/-- What is reported about a text that was read as a formula. -/
def parsedEvent (now : Moment) (formulaId hash : Option String) : Event :=
  .report now.time .parsed .info "Formula parsed" (treeContext hash formulaId []) none

/-- What is reported about a text that was not read as a formula. -/
def parseFailedEvent (now : Moment) (text : Value) (formulaId : Option String) (err : ParseError) :
    Event :=
  .report now.time .parseFailed .error err.message
    (Event.formulaContext text.text? formulaId [("position", positionValue err.position)])
    (some "formula_syntax_error")

/-- Reads a text as a formula, which goes to an address in memory. -/
def parse (en : Engine) (now : Moment) (address : Nat) (text : Value) (formulaId : Option String) :
    Except (Fault ParseError) Tree × Engine :=
  match Formula.parseValue en.settings.limits text with
  | .error err => (.error (.own err), en.record (parseFailedEvent now text formulaId err) none)
  | .ok e =>
    let tree : Tree := ⟨address, e⟩
    en.reporting (.ok tree) (some tree) (parsedEvent now formulaId) none

/-- The formula or the absence of one, as it is handed to the evaluator. -/
def partOf : Option Expr → Part
  | some e => .formula e
  | none => .other .null

/-- What is reported about evaluating a formula. -/
def executeEvent (now : Moment) (formulaId : Option String) (result : Except EvalError Outcome)
    (hash : Option String) : Event :=
  match result with
  | .ok outcome =>
    .report now.time .executed .info "Formula executed"
      (treeContext hash formulaId
        [("variables_used", .list (outcome.used.map .text)),
          (Event.durationField, .double now.duration)])
      none
  | .error (.divisionByZero op) =>
    .report now.time .divisionByZero .error (EvalError.divisionByZero op).message
      (treeContext hash formulaId []) (some "formula_division_by_zero")
  | .error err =>
    .report now.time .executionFailed .error err.message
      (treeContext hash formulaId [("error_type", .text err.kind)])
      (some "formula_execution_error")

/-- Evaluates a formula under bindings. -/
def execute (en : Engine) (now : Moment) (tree : Option Tree) (bindings : Value)
    (run formulaId : Option String) : Except (Fault EvalError) Outcome × Engine :=
  let result := en.evaluator.run (partOf (tree.map (·.expr))) bindings
  en.reporting result tree (executeEvent now formulaId result) run

/-- Reads a text as a formula and evaluates it under bindings. -/
def evaluate (en : Engine) (now : Moment) (address : Nat) (text bindings : Value)
    (run formulaId : Option String) : Except (Fault FormulaError) Outcome × Engine :=
  match en.parse now address text formulaId with
  | (.error e, en) => (.error (e.map .parse), en)
  | (.ok tree, en) =>
    let (result, en) := en.execute now (some tree) bindings run formulaId
    (result.mapError (·.map .eval), en)

/-- What is reported about checking a text. -/
def validateEvent (now : Moment) (text : Value) (v : Validation) : Event :=
  .report now.time .validated (if v.valid then .info else .warning)
    (if v.valid then "Formula is valid" else "Formula has validation errors")
    (Event.formulaContext text.text? none
      [("issue_codes", .list (v.issues.map fun i => .text i.code))])
    none

/-- Checks a text without evaluating it. -/
def validate (en : Engine) (now : Moment) (text : Value) (known : Option (List String)) :
    Validation × Engine :=
  let result := Formula.validate en.settings.limits Builtin.all known text
  (result, en.record (validateEvent now text result) none)

/-- Tries a text on sample values. Trials are not reported. -/
def trial (en : Engine) (text bindings : Value) : Trial × Engine :=
  (Formula.trial en.settings.limits en.evaluator text bindings, en)

end Engine

end PayrollFormula
