import ImportCensus.Census.Analysis
import ImportCensus.Census.Source
import ImportCensus.Census.Visit
import ImportCensus.ClassSet
import ImportCensus.CommandLine.Help
import ImportCensus.CommandLine.Parsing
import ImportCensus.CommandLine.Request
import ImportCensus.CompilationUnit
import ImportCensus.Decimal
import ImportCensus.Event
import ImportCensus.Fault
import ImportCensus.FileSystem.Basic
import ImportCensus.FileSystem.Listing
import ImportCensus.FileSystem.Path
import ImportCensus.FileSystem.Reach
import ImportCensus.FileSystem.Walk
import ImportCensus.Header.Block
import ImportCensus.Header.Imports
import ImportCensus.Header.Package
import ImportCensus.Main
import ImportCensus.Report.Csv
import ImportCensus.Report.CsvReader
import ImportCensus.Report.Delivery
import ImportCensus.Report.Format
import ImportCensus.Report.Json
import ImportCensus.Report.JsonReader
import ImportCensus.Report.Label
import ImportCensus.Report.Row
import ImportCensus.Report.Stats
import ImportCensus.Report.Style
import ImportCensus.Report.Summary
import ImportCensus.Run
import ImportCensus.Session
import ImportCensus.Settings.Assignment
import ImportCensus.Settings.Basic
import ImportCensus.Settings.File
import ImportCensus.Settings.Toml
import ImportCensus.Settings.Yaml.Cursor
import ImportCensus.Settings.Yaml.Document
import ImportCensus.Settings.Yaml.Node
import ImportCensus.Settings.Yaml.Reading
import ImportCensus.Settings.Yaml.Scalar
import ImportCensus.Text.Basic
import ImportCensus.Text.Blank
import ImportCensus.Text.Encoding
import ImportCensus.Text.Hex
import ImportCensus.Text.Line
import ImportCensus.Traced
import ImportCensus.Usage
import ImportCensus.Proofs.Census.Classes
import ImportCensus.Proofs.Census.Modes
import ImportCensus.Proofs.Census.Units
import ImportCensus.Proofs.Census.Visit
import ImportCensus.Proofs.FileSystem.Path
import ImportCensus.Proofs.FileSystem.Reach
import ImportCensus.Proofs.FileSystem.Walk
import ImportCensus.Proofs.Header.Block
import ImportCensus.Proofs.Header.Written
import ImportCensus.Proofs.Report.Csv
import ImportCensus.Proofs.Run
import ImportCensus.Proofs.Text.Line
import ImportCensus.Proofs.Text.Search
import ImportCensus.Proofs.Text.Segments
import ImportCensus.Proofs.Traced
import ImportCensus.Proofs.Report.Rows
import ImportCensus.Proofs.Presentation
import ImportCensus.Proofs.Usage
import ImportCensus.Proofs.Census.Restriction
import ImportCensus.Proofs.Census.Irrelevant
import ImportCensus.Proofs.Census.Order
import ImportCensus.Proofs.Report.Json
import ImportCensus.Proofs.Report.Totals
import ImportCensus.Proofs.CommandLine.Flags
import ImportCensus.Proofs.CommandLine.Written
import ImportCensus.Proofs.CommandLine.Parsing
import ImportCensus.Proofs.Settings.Assignments
import ImportCensus.Proofs.Settings.File
import ImportCensus.Proofs.Settings.Effective
import ImportCensus.Proofs.Header.Endings
import ImportCensus.Proofs.Census.Calls
import ImportCensus.Proofs.Text.Bytes
import ImportCensus.Proofs.FileSystem.Names
import ImportCensus.Proofs.Census.Sorted
import ImportCensus.Proofs.Settings.Documents
import ImportCensus.Proofs.Settings.TomlDocuments
import ImportCensus.Proofs.Settings.YamlDocuments
import ImportCensus.Proofs.Settings.Formats
import ImportCensus.Proofs.Text.Cut
import ImportCensus.Proofs.Header.Declaration
import ImportCensus.Proofs.Report.Ranking
import ImportCensus.Proofs.Report.Label
import ImportCensus.Proofs.Arrangement
import ImportCensus.Proofs.FileSystem.Agreement
