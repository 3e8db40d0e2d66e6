import SlideDeck.Calendar.Civil
import SlideDeck.Calendar.Format
import SlideDeck.Command.Answer
import SlideDeck.Command.Arguments
import SlideDeck.Command.Report
import SlideDeck.Command.Survey
import SlideDeck.Command.Trial
import SlideDeck.Context.Basic
import SlideDeck.Context.Binding
import SlideDeck.Context.Trace
import SlideDeck.Decimal.Binary
import SlideDeck.Decimal.Count
import SlideDeck.Decimal.Layout
import SlideDeck.Decimal.Reading
import SlideDeck.Decimal.Shortest
import SlideDeck.Decimal.Whole
import SlideDeck.Formula.Dependency
import SlideDeck.Formula.Error
import SlideDeck.Formula.Grammar
import SlideDeck.Formula.Reference
import SlideDeck.Instances
import SlideDeck.Json.Basic
import SlideDeck.Json.Reader
import SlideDeck.Json.Writing
import SlideDeck.Log.Event
import SlideDeck.Log.Filter
import SlideDeck.Main
import SlideDeck.Markup.Element
import SlideDeck.Markup.Fragment
import SlideDeck.Markup.Handler
import SlideDeck.Markup.Uri
import SlideDeck.Project.Basic
import SlideDeck.Project.Edit
import SlideDeck.Project.Name
import SlideDeck.Project.Snapshot
import SlideDeck.Proofs.Calendar.Civil
import SlideDeck.Proofs.Command.Check
import SlideDeck.Proofs.Context.Coercion
import SlideDeck.Proofs.Context.Precedence
import SlideDeck.Proofs.Context.Values
import SlideDeck.Proofs.Decimal.Float
import SlideDeck.Proofs.Decimal.Magnitude
import SlideDeck.Proofs.Decimal.Nearest
import SlideDeck.Proofs.Decimal.Overflow
import SlideDeck.Proofs.Decimal.Plain
import SlideDeck.Proofs.Decimal.Reading
import SlideDeck.Proofs.Decimal.Rounding
import SlideDeck.Proofs.Decimal.Shortest
import SlideDeck.Proofs.Decimal.Whole
import SlideDeck.Proofs.Formula.Boundary
import SlideDeck.Proofs.Formula.Cycle
import SlideDeck.Proofs.Formula.Dependency
import SlideDeck.Proofs.Formula.Diagnosis
import SlideDeck.Proofs.Formula.Hygiene
import SlideDeck.Proofs.Formula.Index
import SlideDeck.Proofs.Formula.Lexing
import SlideDeck.Proofs.Formula.Locality
import SlideDeck.Proofs.Formula.Number
import SlideDeck.Proofs.Formula.Page
import SlideDeck.Proofs.Formula.Parsing
import SlideDeck.Proofs.Formula.Pruning
import SlideDeck.Proofs.Formula.Reference
import SlideDeck.Proofs.Formula.Scan
import SlideDeck.Proofs.Formula.Segment
import SlideDeck.Proofs.Formula.Sentence
import SlideDeck.Proofs.Formula.Template
import SlideDeck.Proofs.Formula.Viability
import SlideDeck.Proofs.Formula.Walk
import SlideDeck.Proofs.Json.Normal
import SlideDeck.Proofs.Json.Number
import SlideDeck.Proofs.Json.Outcome
import SlideDeck.Proofs.Json.Reading
import SlideDeck.Proofs.Json.Restore
import SlideDeck.Proofs.Json.Roundtrip
import SlideDeck.Proofs.Markup.Element
import SlideDeck.Proofs.Markup.Handler
import SlideDeck.Proofs.Markup.StartTag
import SlideDeck.Proofs.Project.Loading
import SlideDeck.Proofs.Project.Naming
import SlideDeck.Proofs.Project.Writing
import SlideDeck.Proofs.Resolve.Circularity
import SlideDeck.Proofs.Resolve.Denotation
import SlideDeck.Proofs.Resolve.Inheritance
import SlideDeck.Proofs.Resolve.Locality
import SlideDeck.Proofs.Resolve.Override
import SlideDeck.Proofs.Resolve.Recursion
import SlideDeck.Proofs.Resolve.Reference
import SlideDeck.Proofs.Resolve.Substitution
import SlideDeck.Proofs.Resolve.Termination
import SlideDeck.Proofs.Resolve.Trace
import SlideDeck.Proofs.Resolve.Update
import SlideDeck.Proofs.Sandbox.Binding
import SlideDeck.Proofs.Sandbox.Console
import SlideDeck.Proofs.Sandbox.Environment
import SlideDeck.Proofs.Sandbox.Execution
import SlideDeck.Proofs.Sandbox.Line
import SlideDeck.Proofs.Sandbox.Location
import SlideDeck.Proofs.Sandbox.Numbering
import SlideDeck.Proofs.Sandbox.Raise
import SlideDeck.Proofs.Script.Change
import SlideDeck.Proofs.Script.Clock
import SlideDeck.Proofs.Script.Codec
import SlideDeck.Proofs.Script.Conduct.Basic
import SlideDeck.Proofs.Script.Conduct.Library
import SlideDeck.Proofs.Script.Conduct.Operation
import SlideDeck.Proofs.Script.Conduct.Run
import SlideDeck.Proofs.Script.Conversion
import SlideDeck.Proofs.Script.Encoding
import SlideDeck.Proofs.Script.Lines.Basic
import SlideDeck.Proofs.Script.Lines.Expression
import SlideDeck.Proofs.Script.Lines.Machine
import SlideDeck.Proofs.Script.Lines.Reading
import SlideDeck.Proofs.Script.Lines.Statement
import SlideDeck.Proofs.Script.Lines.Token
import SlideDeck.Proofs.Script.Member
import SlideDeck.Proofs.Script.Table
import SlideDeck.Proofs.Text.Cut
import SlideDeck.Proofs.Text.Utf8
import SlideDeck.Resolve.Override
import SlideDeck.Resolve.Resolver
import SlideDeck.Resolve.Trace
import SlideDeck.Resolve.Value
import SlideDeck.Sandbox.Console
import SlideDeck.Sandbox.Diagnostic
import SlideDeck.Sandbox.Environment
import SlideDeck.Sandbox.Execution
import SlideDeck.Sandbox.Limits
import SlideDeck.Sandbox.Rendering
import SlideDeck.Sandbox.Risk
import SlideDeck.Sandbox.Trace
import SlideDeck.Script.Code
import SlideDeck.Script.Conversion
import SlideDeck.Script.Expression
import SlideDeck.Script.Format
import SlideDeck.Script.Heap
import SlideDeck.Script.Invoke
import SlideDeck.Script.Library.Arguments
import SlideDeck.Script.Library.Base
import SlideDeck.Script.Library.Codepoint
import SlideDeck.Script.Library.Host
import SlideDeck.Script.Library.List
import SlideDeck.Script.Library.Math
import SlideDeck.Script.Library.Text
import SlideDeck.Script.Machine
import SlideDeck.Script.Number
import SlideDeck.Script.Operation
import SlideDeck.Script.Pattern
import SlideDeck.Script.Random
import SlideDeck.Script.Reading
import SlideDeck.Script.Run
import SlideDeck.Script.Scope
import SlideDeck.Script.Statement
import SlideDeck.Script.Step
import SlideDeck.Script.Table
import SlideDeck.Script.Token
import SlideDeck.Script.Value
import SlideDeck.Text.Blank
import SlideDeck.Text.Caseless
import SlideDeck.Text.Digit
import SlideDeck.Text.Utf8
import SlideDeck.Text.Word
