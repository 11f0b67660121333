import HotPath.Main
import HotPath.Proofs.Report.Acceptance
import HotPath.Proofs.SourceDir
import HotPath.Proofs.Text.Numerals
import HotPath.Proofs.Text.Words
import HotPath.Proofs.Report.LocationColumn
import HotPath.Proofs.FileSystem.Walking
import HotPath.Proofs.FileSystem.Writing
import HotPath.Proofs.Machine.Calls
import HotPath.Proofs.Pipeline.Sampling
import HotPath.Proofs.Glob.Search
import HotPath.Proofs.PathOrder
import HotPath.Proofs.Outputs
import HotPath.Proofs.Pipeline.Instrumentation
import HotPath.Proofs.Text.Utf8
import HotPath.Proofs.Cleaning
import HotPath.Proofs.Pipeline.History
import HotPath.Proofs.Machine.Frames
import HotPath.Proofs.Pipeline.Freshness
import HotPath.Proofs.Report.Ranking
import HotPath.Proofs.Arguments
import HotPath.Proofs.FileSystem.Resolving
import HotPath.Proofs.FileSystem.WorkingDirectory
import HotPath.Proofs.Pipeline.WorkingDirectory
import HotPath.Proofs.Report.Rereading
import HotPath.Proofs.UsageErrors
import HotPath.Proofs.Report.Table
import HotPath.Proofs.Discarding
import HotPath.Proofs.Pipeline.Independence
import HotPath.Proofs.Report.Positions
import HotPath.Proofs.Listing
import HotPath.Proofs.Interruption
import HotPath.Proofs.Pipeline.Echoes
import HotPath.Proofs.FileSystem.Contents
import HotPath.Proofs.Precedence
import HotPath.Proofs.Spellings
import HotPath.Proofs.Checking
import HotPath.Proofs.CommandLine.SeparateValues
import HotPath.Proofs.ProgramPath
import HotPath.Proofs.Report.WrittenCosts
