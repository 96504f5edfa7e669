import ShellFold.Main
import ShellFold.Safety
import ShellFold.Proofs.Text.Written
import ShellFold.Proofs.Expansion.Reading
import ShellFold.Proofs.Expansion.Literal
import ShellFold.Proofs.Attempt
import ShellFold.Proofs.Word
import ShellFold.Proofs.Expansion.Boundary
import ShellFold.Proofs.Expansion.Similar
import ShellFold.Proofs.Expansion.Inert
import ShellFold.Proofs.Expansion.Clean
import ShellFold.Proofs.Expansion.Untouched
import ShellFold.Proofs.Resolve.Meaning
import ShellFold.Proofs.Resolve.Preserved
import ShellFold.Proofs.Script
import ShellFold.Proofs.Session.Mirrors
import ShellFold.Proofs.Resolve.Direct
import ShellFold.Proofs.Resolve.Simulation
import ShellFold.Proofs.Session.Opened
import ShellFold.Proofs.Scan
import ShellFold.Proofs.Session.Program
import ShellFold.Proofs.Resolve.Positions
import ShellFold.Proofs.Session.Context
import ShellFold.Proofs.Session.Projection
import ShellFold.Proofs.Session.Recording
import ShellFold.Proofs.Resolve.Parts
import ShellFold.Proofs.Session.Equivalent
import ShellFold.Proofs.Resolve.Redirections
import ShellFold.Proofs.Resolve.Guards
import ShellFold.Proofs.Resolve.Assignments
import ShellFold.Proofs.Ledger
import ShellFold.Proofs.Resolve.Safe
import ShellFold.Proofs.Session.Trace
import ShellFold.Proofs.Resolve.Readonly
import ShellFold.Proofs.Resolve.Untouched
import ShellFold.Proofs.Handover
import ShellFold.Proofs.Session.Held
import ShellFold.Proofs.Resolve.Literal
import ShellFold.Proofs.Session.Trails
import ShellFold.Proofs.Resolve.Resolved
import ShellFold.Proofs.Session.Client
import ShellFold.Proofs.Session.Lifecycle
import ShellFold.Proofs.Text.Bytes
import ShellFold.Proofs.Interpreter.Operation
import ShellFold.Proofs.Interpreter.Framing
import ShellFold.Proofs.Interpreter.Poisoned
import ShellFold.Proofs.Interpreter.Depth
import ShellFold.Proofs.Session.Depth
import ShellFold.Proofs.Scan.Offence
import ShellFold.Proofs.Scan.Transformation
import ShellFold.Proofs.Tree.Leaves
import ShellFold.Proofs.Tree.RoundTrip
import ShellFold.Proofs.Scan.Source
import ShellFold.Proofs.Script.Lines
import ShellFold.Proofs.Expansion.Attributes
import ShellFold.Proofs.Expansion.Default
import ShellFold.Proofs.Expansion.Splitting
import ShellFold.Proofs.Resolve.Values
import ShellFold.Proofs.Expansion.Nesting
import ShellFold.Proofs.Expansion.Paths
import ShellFold.Proofs.Resolve.Paths
import ShellFold.Proofs.Expansion.Quotation
import ShellFold.Proofs.Expansion.Unsplit
import ShellFold.Proofs.Expansion.Runs
import ShellFold.Proofs.Expansion.Independence
import ShellFold.Proofs.Expansion.Progress
import ShellFold.Proofs.Interpreter.Parameters
import ShellFold.Proofs.Interpreter.Fields
import ShellFold.Proofs.Interpreter.Heredoc
import ShellFold.Proofs.Interpreter.SingleWord
import ShellFold.Proofs.Expansion.Progress
