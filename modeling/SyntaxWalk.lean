import SyntaxWalk.Text.Alphanumeric
import SyntaxWalk.Text.Blank
import SyntaxWalk.Text.Lines
import SyntaxWalk.NameMap
import SyntaxWalk.Number.Binary64
import SyntaxWalk.Number.Shortest
import SyntaxWalk.Number.Literal
import SyntaxWalk.Json.Basic
import SyntaxWalk.Json.Printer
import SyntaxWalk.Json.Quoted
import SyntaxWalk.Json.Assembly
import SyntaxWalk.Json.Embedded
import SyntaxWalk.Json.Lexer
import SyntaxWalk.Json.Strict
import SyntaxWalk.Json.Relaxed
import SyntaxWalk.NodeType
import SyntaxWalk.Node
import SyntaxWalk.Registry
import SyntaxWalk.Phase
import SyntaxWalk.Log
import SyntaxWalk.Walk.Basic
import SyntaxWalk.Walk.Machine
import SyntaxWalk.Walk.Recursive
import SyntaxWalk.Walk.Rules
import SyntaxWalk.Trace.Basic
import SyntaxWalk.Trace.Nesting
import SyntaxWalk.Trace.Text
import SyntaxWalk.Trace.Json
import SyntaxWalk.Settings.Basic
import SyntaxWalk.Settings.Json
import SyntaxWalk.Settings.Schema
import SyntaxWalk.Files.Basic
import SyntaxWalk.Files.Tree
import SyntaxWalk.Settings.Load
import SyntaxWalk.Command.Arguments
import SyntaxWalk.Command.Report
import SyntaxWalk.Command.Run
import SyntaxWalk.Main
import SyntaxWalk.Proofs.Walk.Recursion
import SyntaxWalk.Proofs.Walk.Pairing
import SyntaxWalk.Proofs.Walk.Preorder
import SyntaxWalk.Proofs.Walk.Tour
import SyntaxWalk.Proofs.Walk.Faults
import SyntaxWalk.Proofs.Walk.Completeness
import SyntaxWalk.Proofs.Walk.Address
import SyntaxWalk.Proofs.Walk.FaultPlace
import SyntaxWalk.Proofs.Walk.Relaxation
import SyntaxWalk.Proofs.Walk.Visible
import SyntaxWalk.Proofs.Registry
import SyntaxWalk.Proofs.Walk.Entries
import SyntaxWalk.Proofs.Trace.Sessions
import SyntaxWalk.Proofs.Text
import SyntaxWalk.Proofs.Trace.RoundTrip
import SyntaxWalk.Proofs.Number
import SyntaxWalk.Proofs.Json.Reading
import SyntaxWalk.Proofs.Json.RoundTrip
import SyntaxWalk.Proofs.Settings.Schema
import SyntaxWalk.Proofs.Settings.Acceptance
import SyntaxWalk.Proofs.Settings.RoundTrip
import SyntaxWalk.Proofs.Command.Tracing
import SyntaxWalk.Proofs.Walk.Cutting
import SyntaxWalk.Proofs.Walk.Logs
import SyntaxWalk.Proofs.Walk.Skipping
import SyntaxWalk.Proofs.Trace.Grammar
import SyntaxWalk.Proofs.Trace.Json
import SyntaxWalk.Proofs.Trace.Nesting
import SyntaxWalk.Proofs.Trace.Joining
import SyntaxWalk.Proofs.Walk.Subtree
import SyntaxWalk.Proofs.Walk.Siblings
import SyntaxWalk.Proofs.Command.Agreement
import SyntaxWalk.Proofs.Walk.Iterations
