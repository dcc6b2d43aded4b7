import Settings.Json.Tree
import Settings.Main
import Settings.Proofs.Binary.Decimals
import Settings.Proofs.Binary.Midpoints
import Settings.Proofs.Binary.Nearest
import Settings.Proofs.Binary.Overflow
import Settings.Proofs.Binary.Rounded
import Settings.Proofs.Command.Arguments
import Settings.Proofs.Command.Run
import Settings.Proofs.Config.Integers
import Settings.Proofs.Config.Paths
import Settings.Proofs.Document.Equality
import Settings.Proofs.Except.Results
import Settings.Proofs.Json.Layouts
import Settings.Proofs.Json.Lexing
import Settings.Proofs.Json.Nodes
import Settings.Proofs.Json.Null
import Settings.Proofs.Json.Pieces
import Settings.Proofs.Json.RoundTrip
import Settings.Proofs.Literal.Balance
import Settings.Proofs.Literal.Composition
import Settings.Proofs.Literal.Ends
import Settings.Proofs.Literal.Fragments
import Settings.Proofs.Literal.Grammar
import Settings.Proofs.Literal.Integers
import Settings.Proofs.Literal.Nodes
import Settings.Proofs.Literal.Numerals
import Settings.Proofs.Literal.Overflow
import Settings.Proofs.Literal.Parts
import Settings.Proofs.Literal.Printing
import Settings.Proofs.Literal.Reading
import Settings.Proofs.Literal.Rejection
import Settings.Proofs.Literal.Segments
import Settings.Proofs.Session.Concatenation
import Settings.Proofs.Session.FailFast
import Settings.Proofs.Session.Faults
import Settings.Proofs.Session.Inlining
import Settings.Proofs.Session.Meaning
import Settings.Proofs.Session.Outcome
import Settings.Proofs.Session.Overflow
import Settings.Proofs.Session.Policies
import Settings.Proofs.Session.Printing
import Settings.Proofs.Session.Reordering
import Settings.Proofs.Session.SingleLine
import Settings.Proofs.Session.Sound
import Settings.Proofs.Session.Stripping
import Settings.Proofs.Session.Trace
import Settings.Proofs.Session.Trimming
import Settings.Proofs.Source.Blocks
import Settings.Proofs.Statement.Binding
import Settings.Proofs.Statement.Faults
import Settings.Proofs.Statement.Splitting
import Settings.Proofs.Storage.FileTree
import Settings.Proofs.Table.Changes
import Settings.Proofs.Table.Equality
import Settings.Proofs.Table.Insertion
import Settings.Proofs.Target.Conversion
import Settings.Proofs.Target.Floats
import Settings.Proofs.Text.Lines
import Settings.Proofs.Text.Trim
import Settings.Proofs.Token.Calls
import Settings.Proofs.Token.Leading
import Settings.Proofs.Value.Equality
import Settings.Proofs.Value.Parts
import Settings.Storage.FileTree
