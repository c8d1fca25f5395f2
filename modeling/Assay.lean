import Assay.Analysis
import Assay.Annotate
import Assay.Baseline.Arguments
import Assay.Baseline.Guess
import Assay.Baseline.Machine
import Assay.Baseline.Named
import Assay.Case
import Assay.Catalog.Basic
import Assay.Catalog.Document
import Assay.Catalog.Effects
import Assay.Catalog.Parse
import Assay.Catalog.Receiver
import Assay.Catalog.Relabel
import Assay.Catalog.Syntactic
import Assay.Chart.Basic
import Assay.Chart.Draw
import Assay.Chart.Report
import Assay.Chart.View
import Assay.Classify.Invoke
import Assay.Classify.Run
import Assay.Classify.Solve
import Assay.Command.Job
import Assay.Command.Quoted
import Assay.Command.Resolve
import Assay.Command.Shell
import Assay.Console.Basic
import Assay.Console.Build
import Assay.Console.Document
import Assay.Console.Listing
import Assay.Console.Measure
import Assay.Console.Outline
import Assay.Console.Replay
import Assay.Console.Trial
import Assay.Constraint.Formula
import Assay.Constraint.Linear
import Assay.Constraint.Oracle
import Assay.Constraint.System
import Assay.Corpus.Branch
import Assay.Corpus.Expression
import Assay.Corpus.Generate
import Assay.Datum
import Assay.Decimal.Logarithm
import Assay.Decimal.Quotient
import Assay.Decimal.Reading
import Assay.Decimal.Shortest
import Assay.Decimal.Written
import Assay.Descriptor.Parameter
import Assay.Digest.Base64
import Assay.Digest.Sha256
import Assay.Fault
import Assay.Fuzz.Argument
import Assay.Fuzz.Generate
import Assay.Fuzz.Mutate
import Assay.Fuzz.Run
import Assay.Fuzz.Source
import Assay.Instr.Basic
import Assay.Instr.Listing
import Assay.Instr.Reading
import Assay.Json.Access
import Assay.Json.Basic
import Assay.Json.Reader
import Assay.Json.View
import Assay.Json.Writer
import Assay.Log
import Assay.Machine.Fields
import Assay.Machine.Heap
import Assay.Machine.Run
import Assay.Machine.State
import Assay.Machine.Step
import Assay.Main
import Assay.MethodId
import Assay.Pattern.Basic
import Assay.Pattern.Parse
import Assay.Prime
import Assay.Proofs.Annotate
import Assay.Proofs.Case
import Assay.Proofs.Catalog.Chain
import Assay.Proofs.Catalog.Effects
import Assay.Proofs.Catalog.Labelled
import Assay.Proofs.Catalog.Parse
import Assay.Proofs.Catalog.Reachable
import Assay.Proofs.Classify.Kept
import Assay.Proofs.Classify.Models
import Assay.Proofs.Classify.Tautology
import Assay.Proofs.Console.Nesting
import Assay.Proofs.Console.Sittings
import Assay.Proofs.Corpus.Comparison
import Assay.Proofs.Corpus.Generate
import Assay.Proofs.Corpus.Lines
import Assay.Proofs.Corpus.Phrase
import Assay.Proofs.Corpus.Terms
import Assay.Proofs.Corpus.Tokens
import Assay.Proofs.Descriptor.Agreement
import Assay.Proofs.Descriptor.Loops
import Assay.Proofs.Descriptor.Unique
import Assay.Proofs.Descriptor.Written
import Assay.Proofs.Division
import Assay.Proofs.Fuzz.Coverage
import Assay.Proofs.Fuzz.Crash
import Assay.Proofs.Fuzz.Draw
import Assay.Proofs.Fuzz.Format
import Assay.Proofs.Fuzz.Growth
import Assay.Proofs.Fuzz.Session
import Assay.Proofs.Fuzz.Shape
import Assay.Proofs.Fuzz.WellFormed
import Assay.Proofs.Given
import Assay.Proofs.Grouping
import Assay.Proofs.Input
import Assay.Proofs.Instr.Rendering
import Assay.Proofs.Lines
import Assay.Proofs.Loop
import Assay.Proofs.Machine.Array
import Assay.Proofs.Machine.Call
import Assay.Proofs.Machine.Change
import Assay.Proofs.Machine.Heap
import Assay.Proofs.Machine.Integer
import Assay.Proofs.Machine.Null
import Assay.Proofs.Machine.Overflow
import Assay.Proofs.Machine.Start
import Assay.Proofs.Machine.Verified
import Assay.Proofs.Machine.Writable
import Assay.Proofs.Malformed
import Assay.Proofs.MethodId
import Assay.Proofs.Prime
import Assay.Proofs.Suggestions
import Assay.Proofs.Suite.Lookup
import Assay.Proofs.Symbolic.Agreement
import Assay.Proofs.Symbolic.Branch
import Assay.Proofs.Symbolic.Explore
import Assay.Proofs.Symbolic.Terms
import Assay.Proofs.Symbolic.Worklist
import Assay.Proofs.Syntax.Condition
import Assay.Proofs.Syntax.Expression
import Assay.Proofs.Term.Meaning
import Assay.Proofs.Text
import Assay.Proofs.Value.Acceptance
import Assay.Proofs.Value.Grammar
import Assay.Proofs.Verdict.Exact
import Assay.Proofs.Verdict.Response
import Assay.Score
import Assay.Sorting
import Assay.Stats.Experiment
import Assay.Stats.Kind
import Assay.Stats.View
import Assay.Suite.ClassFile
import Assay.Suite.Folder
import Assay.Suite.Health
import Assay.Suite.Methods
import Assay.Suite.Path
import Assay.Symbolic.Explore
import Assay.Symbolic.Step
import Assay.Syntax.Condition
import Assay.Syntax.Document
import Assay.Syntax.Node
import Assay.Syntax.Query
import Assay.Syntax.Source
import Assay.Term.Basic
import Assay.Term.Operand
import Assay.Term.Text
import Assay.Term.Value
import Assay.Term.View
import Assay.Text.Blank
import Assay.Text.Csv
import Assay.Text.Cut
import Assay.Text.Digit
import Assay.Text.Lines
import Assay.Text.Printable
import Assay.Text.Quoted
import Assay.Text.Ranges
import Assay.Text.Word
import Assay.Ty.Basic
import Assay.Ty.Descriptor
import Assay.Ty.Json
import Assay.Ty.Order
import Assay.Ty.View
import Assay.Value.Argument
import Assay.Value.Document
import Assay.Value.Reading
import Assay.Value.Token
import Assay.Verdict.Info
import Assay.Verdict.Prediction
import Assay.Verdict.Response
import Assay.Verdict.Scale
import Assay.Verdict.View
