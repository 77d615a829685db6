import NixSyntax.Comment
import NixSyntax.Fault
import NixSyntax.Fault.Report
import NixSyntax.Grammar
import NixSyntax.Number.Binary64
import NixSyntax.Number.Decimal
import NixSyntax.Number.Digits
import NixSyntax.Number.Shortest
import NixSyntax.Options
import NixSyntax.Parser.AttrPath
import NixSyntax.Parser.Binding
import NixSyntax.Parser.Document
import NixSyntax.Parser.Expression
import NixSyntax.Parser.Lambda
import NixSyntax.Parser.Rule
import NixSyntax.Parser.Stream
import NixSyntax.Parser.StringLiteral
import NixSyntax.Parser.Unclaimed
import NixSyntax.Position
import NixSyntax.Power
import NixSyntax.Proofs.Alias
import NixSyntax.Proofs.Balance
import NixSyntax.Proofs.Borders
import NixSyntax.Proofs.Caret
import NixSyntax.Proofs.Chains
import NixSyntax.Proofs.Conservation
import NixSyntax.Proofs.Custody
import NixSyntax.Proofs.Cut
import NixSyntax.Proofs.DepthLimit
import NixSyntax.Proofs.Elements
import NixSyntax.Proofs.Entire
import NixSyntax.Proofs.Expected
import NixSyntax.Proofs.Faithful
import NixSyntax.Proofs.Fitting
import NixSyntax.Proofs.Foresight
import NixSyntax.Proofs.Fork
import NixSyntax.Proofs.Forked
import NixSyntax.Proofs.Forms
import NixSyntax.Proofs.Forward
import NixSyntax.Proofs.Ground
import NixSyntax.Proofs.Grouping
import NixSyntax.Proofs.Guarded
import NixSyntax.Proofs.Halting
import NixSyntax.Proofs.Height
import NixSyntax.Proofs.Indenting
import NixSyntax.Proofs.Inside
import NixSyntax.Proofs.Inversion
import NixSyntax.Proofs.Ledger
import NixSyntax.Proofs.Legible
import NixSyntax.Proofs.Lexed
import NixSyntax.Proofs.Lexer
import NixSyntax.Proofs.Lexicon
import NixSyntax.Proofs.Lines
import NixSyntax.Proofs.Lookahead
import NixSyntax.Proofs.Lossless
import NixSyntax.Proofs.Moves
import NixSyntax.Proofs.Nesting
import NixSyntax.Proofs.NonInterference
import NixSyntax.Proofs.Ordering
import NixSyntax.Proofs.Parallel
import NixSyntax.Proofs.ParallelRules
import NixSyntax.Proofs.Parenthesized
import NixSyntax.Proofs.Places
import NixSyntax.Proofs.Plain
import NixSyntax.Proofs.Precedence
import NixSyntax.Proofs.Printed
import NixSyntax.Proofs.Quoting
import NixSyntax.Proofs.Reading
import NixSyntax.Proofs.Refusal
import NixSyntax.Proofs.Remains
import NixSyntax.Proofs.Reread
import NixSyntax.Proofs.Retaking
import NixSyntax.Proofs.RoundTrip
import NixSyntax.Proofs.Rounds
import NixSyntax.Proofs.Rows
import NixSyntax.Proofs.Run
import NixSyntax.Proofs.Scanning
import NixSyntax.Proofs.Settling
import NixSyntax.Proofs.Silent
import NixSyntax.Proofs.Slices
import NixSyntax.Proofs.Spacing
import NixSyntax.Proofs.Spelling
import NixSyntax.Proofs.StringEnds
import NixSyntax.Proofs.StringTokens
import NixSyntax.Proofs.Termination
import NixSyntax.Proofs.Uniform
import NixSyntax.Proofs.WellFormed
import NixSyntax.Proofs.Yield
import NixSyntax.Session
import NixSyntax.Text.Blank
import NixSyntax.Text.CodePoint
import NixSyntax.Text.Extender
import NixSyntax.Text.Ignorable
import NixSyntax.Text.Line
import NixSyntax.Text.Quoted
import NixSyntax.Text.Unprintable
import NixSyntax.Token
import NixSyntax.Token.Kind
import NixSyntax.Token.Layout
import NixSyntax.Token.Recognise
import NixSyntax.Token.Scan
import NixSyntax.Token.StringText
import NixSyntax.Tree
import NixSyntax.Tree.Comments
import NixSyntax.Tree.Printer
import NixSyntax.Tree.Same
import NixSyntax.Tree.Uniform
