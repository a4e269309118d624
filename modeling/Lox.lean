import Lox.Main
import Lox.Proofs.Command.Keeping
import Lox.Proofs.Command.Layers
import Lox.Proofs.Command.Lines
import Lox.Proofs.Command.Modes
import Lox.Proofs.Command.Programs
import Lox.Proofs.Command.Saving
import Lox.Proofs.Command.Session
import Lox.Proofs.Command.Verdict
import Lox.Proofs.Decimal.Characters
import Lox.Proofs.Decimal.Shortest
import Lox.Proofs.Diagnostics.Appending
import Lox.Proofs.Diagnostics.Session
import Lox.Proofs.Expr.Automaton
import Lox.Proofs.Expr.Context
import Lox.Proofs.Expr.Lines
import Lox.Proofs.Expr.Outline
import Lox.Proofs.Expr.Payload
import Lox.Proofs.Expr.Readability
import Lox.Proofs.Expr.Typing
import Lox.Proofs.Files.Writing
import Lox.Proofs.Json.Decimals
import Lox.Proofs.Json.Decoding
import Lox.Proofs.Json.Grammar
import Lox.Proofs.Json.Numbers
import Lox.Proofs.Json.Passing
import Lox.Proofs.Json.Steps
import Lox.Proofs.Json.Strings
import Lox.Proofs.Json.Written
import Lox.Proofs.Reading.Completeness
import Lox.Proofs.Reading.Depth
import Lox.Proofs.Reading.Heights
import Lox.Proofs.Reading.Kinds
import Lox.Proofs.Reading.Limit
import Lox.Proofs.Reading.Outcome
import Lox.Proofs.Reading.Prefixes
import Lox.Proofs.Reading.Progress
import Lox.Proofs.Reading.Renaming
import Lox.Proofs.Reading.Resuming
import Lox.Proofs.Reading.Steps
import Lox.Proofs.Reading.Stream
import Lox.Proofs.Reading.Termination
import Lox.Proofs.Reading.TooDeep
import Lox.Proofs.Reading.Unended
import Lox.Proofs.Reading.Verdict
import Lox.Proofs.Reading.Whole
import Lox.Proofs.Run.Decoding
import Lox.Proofs.Run.Display
import Lox.Proofs.Run.Dump
import Lox.Proofs.Run.Ending
import Lox.Proofs.Run.Layout
import Lox.Proofs.Run.Outcome
import Lox.Proofs.Run.Parentheses
import Lox.Proofs.Run.Reporting
import Lox.Proofs.Run.Types
import Lox.Proofs.Scanning.Bounds
import Lox.Proofs.Scanning.Breaks
import Lox.Proofs.Scanning.Layout
import Lox.Proofs.Scanning.Lines
import Lox.Proofs.Scanning.Munch
import Lox.Proofs.Scanning.Rounds
import Lox.Proofs.Scanning.Segment
import Lox.Proofs.Scanning.Steps
import Lox.Proofs.Scanning.Stream
import Lox.Proofs.Scanning.Tokens
import Lox.Proofs.Settings.Environment
import Lox.Proofs.Settings.Fields
import Lox.Proofs.Settings.Objects
import Lox.Proofs.Settings.RoundTrip
import Lox.Proofs.Text.Printable
