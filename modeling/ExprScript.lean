import ExprScript.Error
import ExprScript.Eval.Basic
import ExprScript.Eval.Call
import ExprScript.Eval.Library
import ExprScript.Eval.Operator
import ExprScript.Eval.Property
import ExprScript.Eval.World
import ExprScript.Grammar.Arrow
import ExprScript.Grammar.Basic
import ExprScript.Grammar.Chain
import ExprScript.Grammar.Climb
import ExprScript.Grammar.Expression
import ExprScript.Grammar.Literal
import ExprScript.Loop
import ExprScript.Main
import ExprScript.Number.Dyadic
import ExprScript.Number.Layout
import ExprScript.Number.Reading
import ExprScript.Number.Remainder
import ExprScript.Number.Shortest
import ExprScript.Number.Word
import ExprScript.Shell.Document
import ExprScript.Shell.DocumentReader
import ExprScript.Shell.Options
import ExprScript.Shell.Render
import ExprScript.Shell.Session
import ExprScript.Source.Cursor
import ExprScript.Source.Position
import ExprScript.Text.Alphabetic
import ExprScript.Text.Blank
import ExprScript.Text.CodeRange
import ExprScript.Text.GraphemeExtend
import ExprScript.Text.Identifier
import ExprScript.Text.Numeric
import ExprScript.Text.Printable
import ExprScript.Text.Quote
import ExprScript.Text.Units
import ExprScript.Token.Basic
import ExprScript.Token.Name
import ExprScript.Token.Numeral
import ExprScript.Token.Quoted
import ExprScript.Token.Scanner
import ExprScript.Token.Trivia
import ExprScript.Tree.Basic
import ExprScript.Tree.Builder
import ExprScript.Tree.Operator
import ExprScript.Tree.Path
import ExprScript.Tree.Precedence
import ExprScript.Tree.Printer
import ExprScript.Tree.Reinterpret
import ExprScript.Value.ArrayStore
import ExprScript.Value.Basic
import ExprScript.Value.Convert
import ExprScript.Value.Diagnostic
import ExprScript.Value.Equality
import ExprScript.Value.Heap
import ExprScript.Value.Record
import ExprScript.Value.Scope
import ExprScript.Proofs.ArrayStore
import ExprScript.Proofs.ArrayRepresentation
import ExprScript.Proofs.Memo.Simulation
import ExprScript.Proofs.Memo.Evaluation
import ExprScript.Proofs.Memo.Transparency
import ExprScript.Proofs.Outcome
import ExprScript.Proofs.Token.Progress
import ExprScript.Proofs.Tree.RoundTrip
import ExprScript.Proofs.Tree.WellFormed
import ExprScript.Proofs.Number.Plain
import ExprScript.Proofs.Token.Numeral
import ExprScript.Proofs.Grammar.State
import ExprScript.Proofs.Tree.Grammatical
import ExprScript.Proofs.Grammar.Literal
import ExprScript.Proofs.Grammar.Object
import ExprScript.Proofs.Grammar.Chain
import ExprScript.Proofs.Grammar.Climb
import ExprScript.Proofs.Grammar.Expression
import ExprScript.Proofs.Tree.Canonical
import ExprScript.Proofs.Token.Rereading
import ExprScript.Proofs.Token.Quoted
import ExprScript.Proofs.Token.Template
import ExprScript.Proofs.Tree.Words
import ExprScript.Proofs.Number.Scientific
import ExprScript.Proofs.Number.Written
import ExprScript.Proofs.Token.Lexing
import ExprScript.Proofs.Equality
import ExprScript.Proofs.OptionalChain
import ExprScript.Proofs.Token.Trivia
import ExprScript.Proofs.Token.Tiling
import ExprScript.Proofs.ArrayLength
import ExprScript.Proofs.SyntaxErrors
import ExprScript.Proofs.Strict.Expression
import ExprScript.Proofs.Tree.Printed
import ExprScript.Proofs.Reading.Expression
import ExprScript.Proofs.Shell.Rendering
import ExprScript.Proofs.Tree.Writable
import ExprScript.Proofs.Span.Place
import ExprScript.Proofs.Span.Outline
import ExprScript.Proofs.Span.Expression
import ExprScript.Proofs.Climb.Loop
import ExprScript.Proofs.ErrorPlaces
import ExprScript.Proofs.Number.Shortest
import ExprScript.Proofs.Build.Words
import ExprScript.Proofs.Build.Tree
import ExprScript.Proofs.Build.Reparse
import ExprScript.Proofs.ArrayTruncation
import ExprScript.Proofs.Span.Scanning
import ExprScript.Proofs.Tree.KeyNames
import ExprScript.Proofs.Relocation.World
import ExprScript.Proofs.Relocation.Evaluation
import ExprScript.Proofs.Relocation.Call
import ExprScript.Proofs.Receiver
import ExprScript.Proofs.Token.Sequence
import ExprScript.Proofs.Token.NumeralForm
import ExprScript.Proofs.Token.Nesting
import ExprScript.Proofs.Reading.Alone
import ExprScript.Proofs.Growth
import ExprScript.Proofs.RecordEntries
import ExprScript.Proofs.Variables
import ExprScript.Proofs.Binding.Walk
import ExprScript.Proofs.Binding.Leaves
import ExprScript.Proofs.Binding.Assignment
import ExprScript.Proofs.Binding.Rest
import ExprScript.Proofs.Binding.Parameters
import ExprScript.Proofs.Discipline.Permission
import ExprScript.Proofs.Guard
import ExprScript.Proofs.Discipline.Call
import ExprScript.Proofs.Comma.Next
import ExprScript.Proofs.Comma.Tree
import ExprScript.Proofs.Comma.State
import ExprScript.Proofs.Comma.Literal
import ExprScript.Proofs.Comma.Chain
import ExprScript.Proofs.Comma.Expression
import ExprScript.Proofs.Grammar.Reinterpretation
import ExprScript.Proofs.Build.Literal
import ExprScript.Proofs.FunctionView
import ExprScript.Proofs.Shown.Tree
import ExprScript.Proofs.Shown.Normal
import ExprScript.Proofs.Shown.World
import ExprScript.Proofs.Shown.Rules
import ExprScript.Proofs.Shown.Evaluation
import ExprScript.Proofs.Shown.Call
import ExprScript.Proofs.Build.Readable
import ExprScript.Proofs.Build.Operand
import ExprScript.Proofs.Build.Name
import ExprScript.Proofs.Grammar.Brace
import ExprScript.Proofs.FunctionText
import ExprScript.Proofs.CompoundAssignment
import ExprScript.Proofs.Discipline.Rules
import ExprScript.Proofs.Discipline.Evaluation
import ExprScript.Proofs.Discipline.Quiet
import ExprScript.Proofs.Discipline.Captured
import ExprScript.Proofs.Comparison
import ExprScript.Proofs.PropertyViews
import ExprScript.Proofs.Walk
import ExprScript.Proofs.Token.Locality
import ExprScript.Proofs.Token.Insertion
import ExprScript.Proofs.Number.Exact
import ExprScript.Proofs.Number.Integer
import ExprScript.Proofs.Bitwise
import ExprScript.Proofs.Number.Placement
import ExprScript.Proofs.Number.Notation
import ExprScript.Proofs.Token.NumeralValue
import ExprScript.Proofs.RecordHistory
import ExprScript.Proofs.ArrayKeys
