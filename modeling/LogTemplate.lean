import LogTemplate.Main
import LogTemplate.Template.Segment
import LogTemplate.Proofs.Template.Balance
import LogTemplate.Proofs.Template.Grammar
import LogTemplate.Proofs.Template.Formatter
import LogTemplate.Proofs.Template.Rendering
import LogTemplate.Proofs.Call.Binding
import LogTemplate.Proofs.Call.Folding
import LogTemplate.Proofs.Call.Reporting
import LogTemplate.Proofs.Json.Acceptance
import LogTemplate.Proofs.Json.Sequences
import LogTemplate.Proofs.Json.Shapes
import LogTemplate.Proofs.Cache.RoundTrip
import LogTemplate.Proofs.FileTree.View
import LogTemplate.Proofs.FileTree.Walk
import LogTemplate.Proofs.FileTree.Paths
import LogTemplate.Proofs.FileTree.Effects
import LogTemplate.Proofs.FileTree.Contents
import LogTemplate.Proofs.Cache.Storing
import LogTemplate.Proofs.Cache.Soundness
import LogTemplate.Proofs.Run.History
import LogTemplate.Proofs.Cache.Compatibility
import LogTemplate.Proofs.Cache.Handover
import LogTemplate.Proofs.Json.Values
import LogTemplate.Proofs.Template.Spans
import LogTemplate.Proofs.Json.Levels
import LogTemplate.Proofs.Dump.Expressions
import LogTemplate.Proofs.Dump.RoundTrip
import LogTemplate.Proofs.Call.WorkStack
import LogTemplate.Proofs.Run.Sorting
import LogTemplate.Proofs.Run.Patterns
import LogTemplate.Proofs.Run.Selection
import LogTemplate.Proofs.Run.Uncached
import LogTemplate.Proofs.Run.Monotone
import LogTemplate.Proofs.Run.Layers
import LogTemplate.Proofs.CommandLine.OutputPath
import LogTemplate.Proofs.CommandLine.ExitCode
import LogTemplate.Proofs.Template.FullScan
import LogTemplate.Proofs.Template.Delimiting
import LogTemplate.Proofs.Template.Runs
import LogTemplate.Proofs.Template.Assembly
import LogTemplate.Proofs.Call.Concatenation
import LogTemplate.Proofs.Call.Addition
import LogTemplate.Proofs.Cache.Repetition
import LogTemplate.Proofs.Run.Aggregation
import LogTemplate.Proofs.Run.Discovery
import LogTemplate.Proofs.Report.RoundTrip
import LogTemplate.Proofs.Cache.Isolation
import LogTemplate.Proofs.FileTree.Replacing
import LogTemplate.Proofs.Cache.Footprint
import LogTemplate.Proofs.Run.Frame
import LogTemplate.Proofs.Cache.Invalidation
import LogTemplate.Proofs.Report.Lines
import LogTemplate.Proofs.Call.Arguments
import LogTemplate.Proofs.Call.Incomplete
import LogTemplate.Proofs.Run.Ignoring
