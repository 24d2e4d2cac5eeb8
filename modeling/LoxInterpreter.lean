import LoxInterpreter.CommandLine.Arguments
import LoxInterpreter.CommandLine.Command
import LoxInterpreter.CommandLine.Directory
import LoxInterpreter.Constant
import LoxInterpreter.Document
import LoxInterpreter.Execution.Evaluation
import LoxInterpreter.Execution.Machine
import LoxInterpreter.Execution.Operation
import LoxInterpreter.Execution.Store
import LoxInterpreter.Execution.Value
import LoxInterpreter.Failure
import LoxInterpreter.Grammar.Expression
import LoxInterpreter.Grammar.Parser
import LoxInterpreter.Grammar.Statement
import LoxInterpreter.Main
import LoxInterpreter.Mistake
import LoxInterpreter.Number.Fields
import LoxInterpreter.Number.Nearest
import LoxInterpreter.Number.Shortest
import LoxInterpreter.Number.Style
import LoxInterpreter.Program
import LoxInterpreter.Proofs.Grammar.Normal
import LoxInterpreter.Proofs.Grammar.Reading
import LoxInterpreter.Proofs.Grammar.Rules
import LoxInterpreter.Proofs.Grammar.Soundness
import LoxInterpreter.Prompt
import LoxInterpreter.Scope.Resolution
import LoxInterpreter.Session
import LoxInterpreter.Table
import LoxInterpreter.Text.Blank
import LoxInterpreter.Text.Digit
import LoxInterpreter.Text.Encoding
import LoxInterpreter.Text.HexDigit
import LoxInterpreter.Text.Invisible
import LoxInterpreter.Text.Quoted
import LoxInterpreter.Token
import LoxInterpreter.Token.Literal
import LoxInterpreter.Token.Scan
import LoxInterpreter.Tree
import LoxInterpreter.Tree.Document
import LoxInterpreter.Tree.Outline
import LoxInterpreter.Tree.Reference
import LoxInterpreter.Proofs.Grammar.Completeness
import LoxInterpreter.Proofs.Grammar.Exactness
import LoxInterpreter.Proofs.Scope.Context
import LoxInterpreter.Proofs.Execution.Agreement
import LoxInterpreter.Proofs.Execution.Moment
import LoxInterpreter.Proofs.Session.Reachable
import LoxInterpreter.Proofs.Session.References
import LoxInterpreter.Proofs.Lexical.Evaluation
import LoxInterpreter.Proofs.Lexical.Layout
import LoxInterpreter.Proofs.Lexical.Memory
import LoxInterpreter.Proofs.Lexical.Simulation
import LoxInterpreter.Proofs.Lexical.Refinement
import LoxInterpreter.Proofs.Execution.Returning
import LoxInterpreter.Proofs.Lexical.Programs
import LoxInterpreter.Proofs.Execution.Laws
import LoxInterpreter.Proofs.Execution.Tracing
import LoxInterpreter.Proofs.Scope.Hereditary
import LoxInterpreter.Proofs.Scope.Alike
import LoxInterpreter.Proofs.Scope.Walking
import LoxInterpreter.Proofs.Scope.Knowledge
import LoxInterpreter.Proofs.Scope.Widening
import LoxInterpreter.Proofs.Scope.Unwinding
import LoxInterpreter.Proofs.Scope.History
import LoxInterpreter.Proofs.Grammar.Names
import LoxInterpreter.Proofs.Session.Alike
import LoxInterpreter.Proofs.Session.Bounds
import LoxInterpreter.Proofs.Session.Rejection
import LoxInterpreter.Proofs.Execution.Globals
import LoxInterpreter.Proofs.Session.Globals
import LoxInterpreter.Proofs.Execution.Calls
import LoxInterpreter.Proofs.Execution.Restoring
import LoxInterpreter.Proofs.Session.Returns
import LoxInterpreter.Proofs.Scope.Declarative
import LoxInterpreter.Proofs.Lines.Moving
import LoxInterpreter.Proofs.Lines.Values
import LoxInterpreter.Proofs.Lines.Prefixes
import LoxInterpreter.Proofs.Lines.Reading
import LoxInterpreter.Proofs.Lines.Resolving
import LoxInterpreter.Proofs.Lines.Running
import LoxInterpreter.Proofs.Lines.Scanning
import LoxInterpreter.Proofs.Lines.Sessions
import LoxInterpreter.Proofs.Scope.OwnInitializer
import LoxInterpreter.Proofs.Session.Environment
import LoxInterpreter.Proofs.Session.Initializers
import LoxInterpreter.Proofs.Session.Levels
import LoxInterpreter.Proofs.Number.Rounding
import LoxInterpreter.Proofs.Number.Doubles
import LoxInterpreter.Proofs.Number.Equality
import LoxInterpreter.Proofs.Token.Forms
import LoxInterpreter.Proofs.Token.LongestMatch
import LoxInterpreter.Proofs.Token.Places
import LoxInterpreter.Proofs.Token.Rescanning
import LoxInterpreter.Proofs.Grammar.Bounds
import LoxInterpreter.Proofs.Grammar.Notices
import LoxInterpreter.Proofs.Grammar.Windows
import LoxInterpreter.Proofs.Grammar.Loops
import LoxInterpreter.Proofs.Grammar.Recovery
import LoxInterpreter.Proofs.Grammar.Numerals
import LoxInterpreter.Proofs.Document.Equality
import LoxInterpreter.Proofs.Lines.Documents
import LoxInterpreter.Proofs.Number.Shortest
import LoxInterpreter.Proofs.Document.Grammar
import LoxInterpreter.Proofs.Document.Numerals
import LoxInterpreter.Proofs.Document.Strings
import LoxInterpreter.Proofs.Document.Brackets
import LoxInterpreter.Proofs.Document.Written
import LoxInterpreter.Proofs.Document.Emitted
import LoxInterpreter.Proofs.Execution.Forest
import LoxInterpreter.Proofs.Text.Encoding
import LoxInterpreter.Proofs.Token.Encoded
import LoxInterpreter.Proofs.Token.Lines
import LoxInterpreter.Proofs.Number.Text
