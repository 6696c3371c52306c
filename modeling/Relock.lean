import Relock.Alias.Chain
import Relock.Alias.Groups
import Relock.Alias.Identity
import Relock.Alias.Oracle
import Relock.CallGraph.Basic
import Relock.CallGraph.Component
import Relock.CallGraph.Dot
import Relock.Command.Grammar
import Relock.Command.Request
import Relock.Command.Run
import Relock.Command.Storage
import Relock.Config
import Relock.Detection
import Relock.Diagnostic
import Relock.Glob
import Relock.Journal
import Relock.Json
import Relock.Keyed
import Relock.Lifetime.Step
import Relock.Lifetime.Walk
import Relock.Lifetime.Wrapper
import Relock.LockSite
import Relock.Main
import Relock.Note
import Relock.Number.Literal
import Relock.Number.Shortest
import Relock.Order
import Relock.Pattern.Basic
import Relock.Pattern.Builtin
import Relock.Pattern.Decoder
import Relock.Program.Basic
import Relock.Program.Builder
import Relock.Program.OfSource
import Relock.Program.OpKind
import Relock.Program.Printer
import Relock.Program.Ty
import Relock.Proofs.Alias.Groups
import Relock.Proofs.Alias.Least
import Relock.Proofs.Alias.Linked
import Relock.Proofs.Alias.Oracle
import Relock.Proofs.Alias.Replay
import Relock.Proofs.Alias.Slot
import Relock.Proofs.Alias.Verdict
import Relock.Proofs.CallGraph.Basic
import Relock.Proofs.CallGraph.Component
import Relock.Proofs.CallGraph.Dot
import Relock.Proofs.CallGraph.Recorded
import Relock.Proofs.CallGraph.Transitive
import Relock.Proofs.Detection.Groups
import Relock.Proofs.Detection.Isolation
import Relock.Proofs.Detection.Limit
import Relock.Proofs.Detection.LockOutcomes
import Relock.Proofs.Detection.Release
import Relock.Proofs.Detection.Run
import Relock.Proofs.Detection.Silenced
import Relock.Proofs.Detection.Sites
import Relock.Proofs.Keyed
import Relock.Proofs.Lifetime.Buckets
import Relock.Proofs.Lifetime.Walk
import Relock.Proofs.Lifetime.Wrapper
import Relock.Proofs.Order
import Relock.Proofs.Pattern.Grammar
import Relock.Proofs.Pattern.InRange
import Relock.Proofs.Pattern.Loader
import Relock.Proofs.Pattern.MatchKinds
import Relock.Proofs.Pattern.Misread
import Relock.Proofs.Program.BlockEnds
import Relock.Proofs.Program.Body
import Relock.Proofs.Program.Builder
import Relock.Proofs.Program.Faithful
import Relock.Proofs.Program.Fits
import Relock.Proofs.Program.Keeps
import Relock.Proofs.Program.Linked
import Relock.Proofs.Program.Nodes
import Relock.Proofs.Program.Numbering
import Relock.Proofs.Program.OfSource
import Relock.Proofs.Program.Ops
import Relock.Proofs.Program.Presents
import Relock.Proofs.Program.ReadBack
import Relock.Proofs.Program.Refusals
import Relock.Proofs.Program.Reordered
import Relock.Proofs.Program.Reserved
import Relock.Proofs.Program.Shape
import Relock.Proofs.Program.WellFormed
import Relock.Proofs.Program.Wiring
import Relock.Proofs.Reading
import Relock.Proofs.Report.Colours
import Relock.Proofs.Report.Records
import Relock.Proofs.Search.Chain
import Relock.Proofs.Search.Complete
import Relock.Proofs.Search.Flow
import Relock.Proofs.Search.Heeded
import Relock.Proofs.Search.Limit
import Relock.Proofs.Search.Move
import Relock.Proofs.Search.Once
import Relock.Proofs.Search.Reach
import Relock.Proofs.Search.Recursion
import Relock.Proofs.Search.Sound
import Relock.Proofs.Search.Termination
import Relock.Proofs.Source.Checked
import Relock.Proofs.Source.Decoder
import Relock.Proofs.Source.Grammar
import Relock.Proofs.Source.Loader
import Relock.Proofs.Source.Misread
import Relock.Proofs.Source.MisreadBody
import Relock.Proofs.Source.Reorder
import Relock.Proofs.Suppression
import Relock.Report.LockTable
import Relock.Report.Terminal
import Relock.Report.Writer
import Relock.Search
import Relock.Sexp.Access
import Relock.Sexp.Basic
import Relock.Sexp.Reader
import Relock.Source.Basic
import Relock.Source.Decoder
import Relock.Source.Error
import Relock.Source.Mention
import Relock.Suppression
import Relock.Text.Digit
import Relock.Text.Printable
import Relock.Text.Quoted
import Relock.Text.Utf8
