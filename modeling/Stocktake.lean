import Stocktake.Main
import Stocktake.Proofs.FileTree.Replace
import Stocktake.Proofs.FileTree.Route
import Stocktake.Proofs.Json.RoundTrip
import Stocktake.Proofs.Json.Token
import Stocktake.Proofs.Registry.Recording
import Stocktake.Proofs.Report.Artifact
import Stocktake.Proofs.Report.Counts
import Stocktake.Proofs.Run.Agreement
import Stocktake.Proofs.Text.Utf8
import Stocktake.Proofs.Walk.Listing
import Stocktake.Proofs.Walk.Order
import Stocktake.Proofs.Walk.Reach
import Stocktake.Proofs.Walk.Selection
import Stocktake.Proofs.Walk.Spelling
import Stocktake.Proofs.Registry.Failures
import Stocktake.Proofs.Report.Sink
import Stocktake.Proofs.Run.Stages
import Stocktake.Proofs.Run.Console
import Stocktake.Proofs.Ranking.Overflow
import Stocktake.Proofs.FileTree.Growth
import Stocktake.Proofs.Run.Overflow
import Stocktake.FileTree.Staging
import Stocktake.Proofs.FileTree.Staging
import Stocktake.Proofs.Run.Effects
import Stocktake.Proofs.Registry.Order
import Stocktake.Proofs.Ranking.Insertion
import Stocktake.Proofs.FileTree.Beside
import Stocktake.Proofs.FileTree.Meeting
import Stocktake.Proofs.Run.Inputs
import Stocktake.Proofs.Run.Apart
import Stocktake.Proofs.Run.Repetition
import Stocktake.Proofs.Walk.Respelling
import Stocktake.Proofs.Settings.Discovery
import Stocktake.Proofs.Scan.Pool
import Stocktake.Proofs.Source.ListReading
import Stocktake.Proofs.Source.InjectionPattern
import Stocktake.Proofs.Source.WrittenList
import Stocktake.Proofs.Text.Search
import Stocktake.Proofs.Source.Declaration
import Stocktake.Proofs.Source.WrittenCall
import Stocktake.Text.LineEnding
import Stocktake.Proofs.Text.LineEnding
import Stocktake.Proofs.Source.LineEnding
import Stocktake.Proofs.Ranking.Stability
import Stocktake.Proofs.FileTree.Writing
import Stocktake.Proofs.Source.EmptyList
import Stocktake.Proofs.Text.Places
import Stocktake.Proofs.Source.DependencyName
import Stocktake.Proofs.Source.QuotedList
import Stocktake.Proofs.Scan.Reading
import Stocktake.Proofs.Path.Bytes
import Stocktake.Proofs.Path.Relative
import Stocktake.Proofs.Scan.RecordPath
import Stocktake.Proofs.Walk.Extension
import Stocktake.Proofs.FileTree.Creation
import Stocktake.Proofs.Settings.Depth
import Stocktake.Proofs.Walk.Respecting
import Stocktake.Proofs.Settings.Starter
import Stocktake.Proofs.Toml.Outline
import Stocktake.Proofs.Toml.Names
import Stocktake.Proofs.Settings.Decoding
import Stocktake.Proofs.Source.Markers
import Stocktake.Proofs.Registry.Templates
import Stocktake.Proofs.Complexity.Partition
import Stocktake.CommandLine.Written
import Stocktake.Proofs.CommandLine.RoundTrip
import Stocktake.Proofs.Json.Layout
import Stocktake.Report.ConsoleText
import Stocktake.Proofs.Text.Rows
import Stocktake.Proofs.Report.ConsoleRows
import Stocktake.Proofs.Report.ConsoleText
import Stocktake.Proofs.Text.Packing
import Stocktake.Proofs.Path.Ancestors
