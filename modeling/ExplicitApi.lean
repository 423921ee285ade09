import ExplicitApi.Cache.Basic
import ExplicitApi.Cache.Codec
import ExplicitApi.Cache.Stamp
import ExplicitApi.Command.Arguments
import ExplicitApi.Command.Run
import ExplicitApi.Command.Words
import ExplicitApi.Config.Basic
import ExplicitApi.Config.Decode
import ExplicitApi.Declaration
import ExplicitApi.Digest
import ExplicitApi.Error
import ExplicitApi.FileTree.Basic
import ExplicitApi.FileTree.Change
import ExplicitApi.FileTree.Resolve
import ExplicitApi.Glob.Basic
import ExplicitApi.Glob.Match
import ExplicitApi.Json.Basic
import ExplicitApi.Json.Decode
import ExplicitApi.Json.Number
import ExplicitApi.Json.Parser
import ExplicitApi.Json.Printer
import ExplicitApi.Main
import ExplicitApi.Mismatch
import ExplicitApi.Number.Binary
import ExplicitApi.OrderedMap
import ExplicitApi.Path
import ExplicitApi.Qualify.Basic
import ExplicitApi.Qualify.Lookback
import ExplicitApi.Qualify.Offsets
import ExplicitApi.Qualify.Segment
import ExplicitApi.Report.Basic
import ExplicitApi.Report.Codec
import ExplicitApi.Report.Format
import ExplicitApi.Run.Cached
import ExplicitApi.Run.Job
import ExplicitApi.Selection.Basic
import ExplicitApi.Selection.Pattern
import ExplicitApi.Text.Word
import ExplicitApi.Text.Line
import ExplicitApi.Text.Quoted
import ExplicitApi.Text.Ranges
import ExplicitApi.Time.Calendar
import ExplicitApi.Time.Instant
import ExplicitApi.Time.Text
import ExplicitApi.Yaml.Cursor
import ExplicitApi.Yaml.Node
import ExplicitApi.Yaml.Scalar
import ExplicitApi.Yaml.ScalarText
import ExplicitApi.Yaml.Token
import ExplicitApi.Proofs.Qualify.ByLine
import ExplicitApi.Proofs.Qualify.Passes
import ExplicitApi.Proofs.Qualify.LineRule
import ExplicitApi.Proofs.Qualify.FixedPoint
import ExplicitApi.Proofs.Qualify.Insertions
import ExplicitApi.Proofs.Cache.OnDisk
import ExplicitApi.Proofs.Run.History
import ExplicitApi.Proofs.Run.Parallel
import ExplicitApi.Proofs.Run.Skipping
import ExplicitApi.Proofs.Run.Transparency
import ExplicitApi.Proofs.Run.Reporting
import ExplicitApi.Proofs.Run.Recording
import ExplicitApi.Proofs.Run.Effect
import ExplicitApi.Proofs.Run.Listing
import ExplicitApi.Proofs.Run.Confinement
import ExplicitApi.Proofs.Selection.UnderRoot
import ExplicitApi.Proofs.Results
import ExplicitApi.Proofs.Sorting
import ExplicitApi.Proofs.Digest.Bytes
import ExplicitApi.Proofs.Time.Calendar
import ExplicitApi.Proofs.Time.RoundTrip
import ExplicitApi.Proofs.FileTree.ReadBack
import ExplicitApi.Proofs.Cache.RoundTrip
import ExplicitApi.Proofs.Cache.Reopening
import ExplicitApi.Proofs.Config.Fingerprint
import ExplicitApi.Proofs.Run.Outcomes
import ExplicitApi.Proofs.Run.Reordering
import ExplicitApi.Proofs.Run.Interleaving
import ExplicitApi.Proofs.Run.Concurrent
import ExplicitApi.Proofs.Run.Rehearsal
import ExplicitApi.Proofs.Command.Check
import ExplicitApi.Proofs.Command.Directory
import ExplicitApi.Proofs.Run.Stopping
import ExplicitApi.Proofs.Cache.Saving
import ExplicitApi.Proofs.FileTree.Differing
import ExplicitApi.Proofs.Selection.Locality
import ExplicitApi.Proofs.Selection.Lines
import ExplicitApi.Proofs.Run.Gathering
import ExplicitApi.Proofs.Report.Edits
import ExplicitApi.Proofs.Run.Accounting
import ExplicitApi.Proofs.Report.JsonFormat
import ExplicitApi.Proofs.Report.Annotations
import ExplicitApi.Proofs.Report.Colors
import ExplicitApi.Proofs.Json.Records
import ExplicitApi.Proofs.Report.RoundTrip
import ExplicitApi.Proofs.Qualify.Boundaries
import ExplicitApi.Proofs.Qualify.Accesses
