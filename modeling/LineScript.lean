import LineScript.Block
import LineScript.CallStack
import LineScript.CommandLine
import LineScript.Console
import LineScript.DataType
import LineScript.Declarations
import LineScript.Diagnostics
import LineScript.Host.Basic
import LineScript.Host.Standard
import LineScript.HostCall
import LineScript.Line
import LineScript.Machine.Basic
import LineScript.Machine.Call
import LineScript.Machine.Line
import LineScript.Machine.Run
import LineScript.Machine.Typing
import LineScript.Main
import LineScript.Make
import LineScript.Memory
import LineScript.Numeral.Binary
import LineScript.Numeral.Conversion
import LineScript.Numeral.Decimal
import LineScript.Numeral.Integer
import LineScript.Outline
import LineScript.ParseError
import LineScript.Parser.Basic
import LineScript.Parser.Header
import LineScript.Parser.Member
import LineScript.Pattern.Basic
import LineScript.Pattern.Rule
import LineScript.Proofs.Arithmetic
import LineScript.Proofs.Arity
import LineScript.Proofs.Attempt
import LineScript.Proofs.Balance
import LineScript.Proofs.Block.Counting
import LineScript.Proofs.Block.Depth
import LineScript.Proofs.Block.Location
import LineScript.Proofs.Block.Note
import LineScript.Proofs.Block.Orderly
import LineScript.Proofs.Branching
import LineScript.Proofs.CallStack
import LineScript.Proofs.Coercion
import LineScript.Proofs.Comparison
import LineScript.Proofs.Condition
import LineScript.Proofs.Conditional
import LineScript.Proofs.Creation
import LineScript.Proofs.Dropped
import LineScript.Proofs.FirstError
import LineScript.Proofs.HostCall
import LineScript.Proofs.Initialiser
import LineScript.Proofs.Isolation
import LineScript.Proofs.Lexing
import LineScript.Proofs.Loop.Passes
import LineScript.Proofs.Loop.Yield
import LineScript.Proofs.LoopFree
import LineScript.Proofs.Machine.Alike
import LineScript.Proofs.Machine.Births
import LineScript.Proofs.Machine.Blind
import LineScript.Proofs.Machine.Calls
import LineScript.Proofs.Machine.CallsEnd
import LineScript.Proofs.Machine.CallsGo
import LineScript.Proofs.Machine.Ends
import LineScript.Proofs.Machine.ExpressionsEnd
import LineScript.Proofs.Machine.Follows
import LineScript.Proofs.Machine.Lines
import LineScript.Proofs.Machine.LinesEnd
import LineScript.Proofs.Machine.LinesGo
import LineScript.Proofs.Machine.Steps
import LineScript.Proofs.Machine.Unaware
import LineScript.Proofs.Make.Pass
import LineScript.Proofs.Make.Refill
import LineScript.Proofs.Memory.All
import LineScript.Proofs.Memory.Layout
import LineScript.Proofs.Memory.Path
import LineScript.Proofs.Memory.Store
import LineScript.Proofs.Memory.Typed
import LineScript.Proofs.Memory.Writes
import LineScript.Proofs.Numbering
import LineScript.Proofs.Numeral.Order
import LineScript.Proofs.Numeral.Rounding
import LineScript.Proofs.Numeral.Whole
import LineScript.Proofs.Parser.Bare
import LineScript.Proofs.Parser.Consumption
import LineScript.Proofs.Parser.Front
import LineScript.Proofs.Parser.Fuel
import LineScript.Proofs.Parser.Learns
import LineScript.Proofs.Parser.Mentions
import LineScript.Proofs.Parser.Noted
import LineScript.Proofs.Parser.Numbered
import LineScript.Proofs.Parser.Transparent
import LineScript.Proofs.Parser.Written
import LineScript.Proofs.Pattern.Cut
import LineScript.Proofs.Pattern.Matching
import LineScript.Proofs.Pattern.Normal
import LineScript.Proofs.Pattern.Slots
import LineScript.Proofs.Pattern.Solid
import LineScript.Proofs.Pattern.Spacing
import LineScript.Proofs.Pattern.Written
import LineScript.Proofs.Progress
import LineScript.Proofs.Recovery
import LineScript.Proofs.RootMessage
import LineScript.Proofs.Scope
import LineScript.Proofs.Session
import LineScript.Proofs.Shadowing
import LineScript.Proofs.Template
import LineScript.Proofs.Termination
import LineScript.Proofs.Text.Cut
import LineScript.Proofs.Text.Note
import LineScript.Proofs.Text.Trim
import LineScript.Proofs.Text.Words
import LineScript.Proofs.Token.Gaps
import LineScript.Proofs.Token.Grammar
import LineScript.Proofs.Token.Joined
import LineScript.Proofs.Token.Note
import LineScript.Proofs.Token.Relexed
import LineScript.Proofs.Token.Standing
import LineScript.Proofs.Tolerance
import LineScript.Proofs.Trace
import LineScript.Proofs.Transparency
import LineScript.Proofs.Typing
import LineScript.Proofs.WholeSlots
import LineScript.Proofs.WholeValue
import LineScript.RuntimeError
import LineScript.Session
import LineScript.Table
import LineScript.Template
import LineScript.Text.Alphanumeric
import LineScript.Text.Backspace
import LineScript.Text.Basic
import LineScript.Text.Blank
import LineScript.Text.Cluster
import LineScript.Text.Extend
import LineScript.Text.Printable
import LineScript.Text.Quoted
import LineScript.Text.Role
import LineScript.Text.Word
import LineScript.Token.Basic
import LineScript.Token.Kind
import LineScript.Token.Lexer
import LineScript.Value
import LineScript.Variable
