import SqlLayout.Bind.Codec
import SqlLayout.Bind.Marker
import SqlLayout.Bind.Search
import SqlLayout.Command.Arguments
import SqlLayout.Command.Run
import SqlLayout.Event
import SqlLayout.Format
import SqlLayout.Kind
import SqlLayout.Layout.Tree
import SqlLayout.Layout.Width
import SqlLayout.Layout.Writer
import SqlLayout.Lexing.Piece
import SqlLayout.Lexing.Span
import SqlLayout.Lexing.Sweep
import SqlLayout.Lexing.Tokenize
import SqlLayout.Main
import SqlLayout.Parse
import SqlLayout.Parsing.Engine
import SqlLayout.Parsing.Grammar
import SqlLayout.Parsing.Root
import SqlLayout.Parsing.Step
import SqlLayout.Proofs.Bind.Bytes
import SqlLayout.Proofs.Bind.Cut
import SqlLayout.Proofs.Bind.Hidden
import SqlLayout.Proofs.Bind.Marked
import SqlLayout.Proofs.Bind.Reading
import SqlLayout.Proofs.Bind.Spelled
import SqlLayout.Proofs.Layout.Idempotence
import SqlLayout.Proofs.Layout.Ink
import SqlLayout.Proofs.Layout.Lays
import SqlLayout.Proofs.Layout.RoundTrip
import SqlLayout.Proofs.Layout.Script
import SqlLayout.Proofs.Layout.Skeleton
import SqlLayout.Proofs.Layout.Spelling
import SqlLayout.Proofs.Lexing.Attach
import SqlLayout.Proofs.Lexing.Lexeme
import SqlLayout.Proofs.Lexing.Lexicon
import SqlLayout.Proofs.Lexing.Literal
import SqlLayout.Proofs.Lexing.Normal
import SqlLayout.Proofs.Lexing.OnePass
import SqlLayout.Proofs.Lexing.Respell
import SqlLayout.Proofs.Lexing.Trim
import SqlLayout.Proofs.Lexing.Whole
import SqlLayout.Proofs.Parsing.Agreement
import SqlLayout.Proofs.Parsing.Bounds
import SqlLayout.Proofs.Parsing.Bracket
import SqlLayout.Proofs.Parsing.Canonical
import SqlLayout.Proofs.Parsing.Carry
import SqlLayout.Proofs.Parsing.Completeness
import SqlLayout.Proofs.Parsing.Derivation
import SqlLayout.Proofs.Parsing.Front
import SqlLayout.Proofs.Parsing.Leaves
import SqlLayout.Proofs.Parsing.Mirror
import SqlLayout.Proofs.Parsing.Move
import SqlLayout.Proofs.Parsing.Outcome
import SqlLayout.Proofs.Parsing.Retext
import SqlLayout.Proofs.Parsing.Room
import SqlLayout.Proofs.Parsing.Shape
import SqlLayout.Proofs.Parsing.Wrapped
import SqlLayout.Proofs.Parsing.Yield
import SqlLayout.Proofs.Report.Flaw
import SqlLayout.Report.Check
import SqlLayout.Report.Json
import SqlLayout.Report.Outline
import SqlLayout.Text.Basic
import SqlLayout.Text.Blank
import SqlLayout.Text.Quoted
import SqlLayout.Text.Upper
import SqlLayout.Token
import SqlLayout.Proofs.Parsing.Lookahead
import SqlLayout.Proofs.Bind.Selection
import SqlLayout.Proofs.Parsing.Refusal
import SqlLayout.Proofs.Bind.Placed
import SqlLayout.Proofs.Bind.Clearance
import SqlLayout.Proofs.Layout.OneLine
import SqlLayout.Proofs.Lexing.Partition
import SqlLayout.Proofs.Lexing.Runs
import SqlLayout.Proofs.Lexing.Comments
import SqlLayout.Proofs.Lexing.Kept
import SqlLayout.Proofs.Report.Sealed
import SqlLayout.Proofs.Report.Faithful
import SqlLayout.Proofs.Layout.Spacing
import SqlLayout.Proofs.Layout.Clean
import SqlLayout.Proofs.Layout.Aligned
import SqlLayout.Proofs.Parsing.Locality
import SqlLayout.Proofs.Lexing.Exhaustive
import SqlLayout.Proofs.Layout.Columns
import SqlLayout.Proofs.Tree.Preorder
