import Literate.Document.Comment
import Literate.Document.Example
import Literate.Document.Extraction
import Literate.Document.Fence
import Literate.Document.Zone
import Literate.Engine.Basic
import Literate.Engine.Interpreter
import Literate.Engine.Playback
import Literate.Fault
import Literate.Json.Basic
import Literate.Json.Parser
import Literate.Json.Quoted
import Literate.Language.Block
import Literate.Language.Header
import Literate.Language.Lexer
import Literate.Language.Operation
import Literate.Language.Outline
import Literate.Language.Parser
import Literate.Language.Resolve
import Literate.Language.Run
import Literate.Language.Statement
import Literate.Language.Store
import Literate.Language.Token
import Literate.Language.Value
import Literate.Main
import Literate.Number.Decimal
import Literate.Number.Double
import Literate.Number.General
import Literate.Number.Nearest
import Literate.Program.Arguments
import Literate.Program.Commands
import Literate.Program.Files
import Literate.Program.Layout
import Literate.Program.Path
import Literate.Program.Record
import Literate.Program.Report
import Literate.Program.Settings
import Literate.Program.Style
import Literate.Request
import Literate.Response
import Literate.Session.Basic
import Literate.Session.Peer
import Literate.Session.Pipe
import Literate.Text.Basic
import Literate.Text.Blank
import Literate.Text.Utf8
import Literate.Text.Word
import Literate.Wire.Message
import Literate.Worker
import Literate.Proofs.Language.LineLocal
import Literate.Proofs.Language.Readers
import Literate.Proofs.Language.Grammar
import Literate.Proofs.Language.Writing
import Literate.Proofs.Language.WrittenBlocks
import Literate.Proofs.Language.Scope
import Literate.Proofs.Language.Join
import Literate.Proofs.Text.Lines
import Literate.Proofs.Document.Cover
import Literate.Proofs.Document.Laid
import Literate.Proofs.Document.Fidelity
import Literate.Proofs.Text.Trim
import Literate.Proofs.Document.Blocks
import Literate.Proofs.Document.Rendering
import Literate.Proofs.Document.Detection
import Literate.Proofs.Language.Failure
import Literate.Proofs.Language.Guard
import Literate.Proofs.Language.Stops
import Literate.Proofs.Worker.Discipline
import Literate.Proofs.Language.NumberFormat
import Literate.Proofs.Worker.Interpreted
import Literate.Proofs.Worker.Precision
import Literate.Proofs.Worker.Safety
import Literate.Proofs.Json.Quoted
import Literate.Proofs.Json.RoundTrip
import Literate.Proofs.Session.Transparency
import Literate.Proofs.Worker.Service
import Literate.Proofs.Language.Calls
import Literate.Proofs.Language.Typing
import Literate.Proofs.Language.Independence
import Literate.Proofs.Session.Lifecycle
import Literate.Proofs.Program.Counts
import Literate.Proofs.Program.Honesty
import Literate.Proofs.Document.Verdicts
import Literate.Proofs.Document.Preparation
import Literate.Proofs.Document.Reindent
import Literate.Proofs.Document.CommentBlocks
import Literate.Proofs.Number.Rounding
import Literate.Proofs.Number.Numeral
import Literate.Proofs.Number.GeneralNotation
import Literate.Proofs.Language.Parenthesized
import Literate.Proofs.Worker.BareExpression
import Literate.Proofs.Language.ReadBack
import Literate.Proofs.Document.Locality
import Literate.Proofs.Document.Shift
import Literate.Proofs.Document.Composition
import Literate.Proofs.Document.LineEndings
import Literate.Proofs.Document.Comparison
import Literate.Proofs.Worker.Termination
import Literate.Proofs.Language.Spelling
import Literate.Proofs.Wire.Recovery
import Literate.Proofs.Language.Arithmetic
import Literate.Proofs.Worker.Comments
import Literate.Proofs.Language.ConfiguredDigits
import Literate.Proofs.Language.StringVariables
import Literate.Proofs.Program.FailFast
import Literate.Proofs.Language.Pieces
import Literate.Proofs.Number.WordArithmetic
import Literate.Proofs.Language.DigitRange
