import ClassQuery.Text.Basic
import ClassQuery.Text.Utf8
import ClassQuery.Text.Utf8.Lemmas
import ClassQuery.Text.Lowercase
import ClassQuery.Text.Screen
import ClassQuery.Abbreviation
import ClassQuery.Settings
import ClassQuery.Query
import ClassQuery.Record
import ClassQuery.Sink
import ClassQuery.Json
import ClassQuery.FileTree.Basic
import ClassQuery.FileTree.Path
import ClassQuery.FileTree.Making
import ClassQuery.Event
import ClassQuery.Search
import ClassQuery.CommandLine.Basic
import ClassQuery.CommandLine.Reading
import ClassQuery.Run
import ClassQuery.Main
import ClassQuery.Proofs.Query.Agreement
import ClassQuery.Proofs.Abbreviation.Scanning
import ClassQuery.Proofs.Abbreviation.Translation
import ClassQuery.Proofs.FileTree.Resolution
import ClassQuery.Proofs.Search.Coverage
import ClassQuery.Proofs.Search.Overflow
import ClassQuery.Proofs.Json.RoundTrip
import ClassQuery.Proofs.Record.Readback
import ClassQuery.Proofs.Query.Inclusion
import ClassQuery.Proofs.Sink.Filling
import ClassQuery.Proofs.Abbreviation.Stream
import ClassQuery.Proofs.Run.Outcome
import ClassQuery.Proofs.Search.Matching
import ClassQuery.Proofs.Level.Words
import ClassQuery.Proofs.CommandLine.Settling
import ClassQuery.Proofs.CommandLine.Requests
import ClassQuery.Proofs.Run.Alike
import ClassQuery.Proofs.CommandLine.Level
import ClassQuery.Proofs.Pattern.Names
import ClassQuery.Proofs.Abbreviation.Continuation
import ClassQuery.Proofs.Search.Lines
import ClassQuery.Proofs.Search.Respelling
import ClassQuery.Proofs.Abbreviation.Progress
