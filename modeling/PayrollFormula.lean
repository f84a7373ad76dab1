import PayrollFormula.Check.Trial
import PayrollFormula.Check.Validation
import PayrollFormula.Document
import PayrollFormula.Engine
import PayrollFormula.Engine.Digests
import PayrollFormula.Engine.Request
import PayrollFormula.Eval.Builtin
import PayrollFormula.Eval.Calculation
import PayrollFormula.Eval.Comparison
import PayrollFormula.Eval.Error
import PayrollFormula.Eval.Evaluator
import PayrollFormula.Eval.Tolerance
import PayrollFormula.Formula.Expr
import PayrollFormula.Formula.Frames
import PayrollFormula.Formula.Parse
import PayrollFormula.Formula.Parsing
import PayrollFormula.Formula.Part
import PayrollFormula.Formula.Printed
import PayrollFormula.Formula.Token
import PayrollFormula.Json.Read
import PayrollFormula.Json.Token
import PayrollFormula.Json.Written
import PayrollFormula.Log.Event
import PayrollFormula.Log.Journal
import PayrollFormula.Log.Redaction
import PayrollFormula.Log.Reporter
import PayrollFormula.Log.Store
import PayrollFormula.Number.Decimal
import PayrollFormula.Number.Double
import PayrollFormula.Number.Integer
import PayrollFormula.Number.Numeral
import PayrollFormula.Number.Places
import PayrollFormula.Number.Rank
import PayrollFormula.Number.Reading
import PayrollFormula.Number.Shortest
import PayrollFormula.Number.Written
import PayrollFormula.Settings
import PayrollFormula.Template.Applied
import PayrollFormula.Template.Basic
import PayrollFormula.Template.Bundled
import PayrollFormula.Template.Catalogue
import PayrollFormula.Template.Report
import PayrollFormula.Template.Schema
import PayrollFormula.Text.CharClass
import PayrollFormula.Text.CharTable
import PayrollFormula.Text.Lines
import PayrollFormula.Text.Names
import PayrollFormula.Text.Quoted
import PayrollFormula.Text.Sha256
import PayrollFormula.Text.UpperCase
import PayrollFormula.Text.Utf8
import PayrollFormula.Value
import PayrollFormula.Proofs.Check.Soundness
import PayrollFormula.Proofs.Formula.Frames
import PayrollFormula.Proofs.Engine.Digests
import PayrollFormula.Proofs.Engine.Sessions
import PayrollFormula.Proofs.Engine.Answers
import PayrollFormula.Proofs.Eval.Dependency
import PayrollFormula.Proofs.Eval.Safety
import PayrollFormula.Proofs.Formula.Accepted
import PayrollFormula.Proofs.Formula.Canonical
import PayrollFormula.Proofs.Formula.Operands
import PayrollFormula.Proofs.Formula.Replacement
import PayrollFormula.Proofs.Formula.RoundTrip
import PayrollFormula.Proofs.Log.Redaction
import PayrollFormula.Proofs.Number.Places
import PayrollFormula.Proofs.Number.Whole
import PayrollFormula.Proofs.Number.WholeNeighbours
import PayrollFormula.Proofs.Template.Hygiene
import PayrollFormula.Proofs.Template.Loaded
import PayrollFormula.Proofs.Template.Parameters
import PayrollFormula.Proofs.Formula.Offence
import PayrollFormula.Proofs.Json.Extent
import PayrollFormula.Proofs.Json.Image
import PayrollFormula.Proofs.Log.Prepared
import PayrollFormula.Proofs.Log.Writing
import PayrollFormula.Proofs.Engine.Reports
import PayrollFormula.Proofs.Engine.Disclosure
import PayrollFormula.Proofs.Json.Numbers
import PayrollFormula.Proofs.Json.Arranged
import PayrollFormula.Proofs.Json.RoundTrip
import PayrollFormula.Proofs.Log.Lines
import PayrollFormula.Proofs.Log.ReadBack
import PayrollFormula.Proofs.Number.Signs
import PayrollFormula.Proofs.Text.UpperCase
import PayrollFormula.Proofs.Eval.Related
import PayrollFormula.Proofs.Formula.Built
import PayrollFormula.Proofs.Formula.Rereading
import PayrollFormula.Proofs.Log.Attempts
import PayrollFormula.Proofs.Log.RunNames
import PayrollFormula.Proofs.Log.AnyContent
import PayrollFormula.Proofs.Formula.Parentheses
import PayrollFormula.Proofs.Formula.Refusal
import PayrollFormula.Proofs.Eval.Choices
import PayrollFormula.Proofs.Settings
import PayrollFormula.Proofs.Formula.FewestParentheses
import PayrollFormula.Proofs.Formula.TextLength
import PayrollFormula.Proofs.Formula.NamesRead
import PayrollFormula.Proofs.Formula.Lexing
import PayrollFormula.Proofs.Eval.Inlining
import PayrollFormula.Proofs.Eval.Rounding
import PayrollFormula.Proofs.Log.TailRead
import PayrollFormula.Proofs.Template.Lookup
import PayrollFormula.Proofs.Engine.Configuration
import PayrollFormula.Proofs.Formula.Positions
import PayrollFormula.Proofs.Formula.Numerals
import PayrollFormula.Proofs.Check.Listing
import PayrollFormula.Proofs.Eval.Levels
import PayrollFormula.Proofs.Log.Untouched
