import EmbeddedTcl.CommandLine.Arguments
import EmbeddedTcl.CommandLine.Files
import EmbeddedTcl.CommandLine.Run
import EmbeddedTcl.Cursor
import EmbeddedTcl.Error
import EmbeddedTcl.Host.Stock
import EmbeddedTcl.Interp.Builtin
import EmbeddedTcl.Interp.Current
import EmbeddedTcl.Interp.Dispatch
import EmbeddedTcl.Interp.Program
import EmbeddedTcl.Interp.Reading
import EmbeddedTcl.Interp.Script
import EmbeddedTcl.Interp.State
import EmbeddedTcl.Interp.Substitute
import EmbeddedTcl.Lexical.Braced
import EmbeddedTcl.Lexical.Escape
import EmbeddedTcl.Lexical.Layout
import EmbeddedTcl.Lexical.Read
import EmbeddedTcl.Lexical.Source
import EmbeddedTcl.Lexical.VarRef
import EmbeddedTcl.Main
import EmbeddedTcl.Proofs.Depth
import EmbeddedTcl.Proofs.Judge
import EmbeddedTcl.Proofs.Lockstep
import EmbeddedTcl.Proofs.ParseFirst
import EmbeddedTcl.Proofs.PureParse
import EmbeddedTcl.Proofs.Return
import EmbeddedTcl.Proofs.ScopeLaws
import EmbeddedTcl.Proofs.Scoping
import EmbeddedTcl.Proofs.Trace
import EmbeddedTcl.Proofs.TwoScopes
import EmbeddedTcl.Proofs.WordTree
import EmbeddedTcl.Scope.Arena
import EmbeddedTcl.Scope.Basic
import EmbeddedTcl.Scope.Stack
import EmbeddedTcl.Session
import EmbeddedTcl.Table
import EmbeddedTcl.Text.Blank
import EmbeddedTcl.Text.Decimal
import EmbeddedTcl.Text.Digit
import EmbeddedTcl.Text.Invisible
import EmbeddedTcl.Text.Newline
import EmbeddedTcl.Text.Position
import EmbeddedTcl.Text.Quoted
import EmbeddedTcl.Proofs.Spelling
import EmbeddedTcl.Proofs.Isolation
import EmbeddedTcl.Proofs.Frames
import EmbeddedTcl.Proofs.Machine
import EmbeddedTcl.Proofs.Termination
import EmbeddedTcl.Proofs.CutShort
import EmbeddedTcl.Proofs.Safety
import EmbeddedTcl.Proofs.Lookahead
import EmbeddedTcl.Proofs.Boundary
import EmbeddedTcl.Proofs.HostTrace
import EmbeddedTcl.Proofs.Limits
import EmbeddedTcl.Proofs.Handles
import EmbeddedTcl.Proofs.Links
import EmbeddedTcl.Proofs.Aliasing
import EmbeddedTcl.Proofs.Outputs
import EmbeddedTcl.Proofs.Nesting
import EmbeddedTcl.Proofs.Braces
import EmbeddedTcl.Proofs.ProcedureCall
import EmbeddedTcl.Proofs.Flaws
import EmbeddedTcl.Proofs.LeadingLayout
import EmbeddedTcl.Proofs.Blame
import EmbeddedTcl.Proofs.References
