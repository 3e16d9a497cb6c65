import SuffixLint.Command
import SuffixLint.Command.Arguments
import SuffixLint.Command.Catalogue
import SuffixLint.Command.Name
import SuffixLint.Command.Outcome
import SuffixLint.Command.Scan
import SuffixLint.Command.Setup
import SuffixLint.Decimal.Binary64
import SuffixLint.Decimal.Digits
import SuffixLint.Decimal.Shortest
import SuffixLint.Declaration
import SuffixLint.DeclarationFile
import SuffixLint.Detector
import SuffixLint.Digest.Sha256
import SuffixLint.Disk
import SuffixLint.Finding
import SuffixLint.Glob
import SuffixLint.Ignore.Pattern
import SuffixLint.Ignore.Rule
import SuffixLint.Input
import SuffixLint.Json.Codec
import SuffixLint.Json.Error
import SuffixLint.Json.Lexeme
import SuffixLint.Json.Number
import SuffixLint.Json.Printer
import SuffixLint.Json.Record
import SuffixLint.Json.Skip
import SuffixLint.Json.Structure
import SuffixLint.Json.Value
import SuffixLint.Linter
import SuffixLint.Log
import SuffixLint.Main
import SuffixLint.Moment
import SuffixLint.Path
import SuffixLint.Proofs.Command.Effects
import SuffixLint.Proofs.Command.Name
import SuffixLint.Proofs.Command.Plain
import SuffixLint.Proofs.Command.Scan
import SuffixLint.Proofs.Command.Setup
import SuffixLint.Proofs.Decimal.Digits
import SuffixLint.Proofs.DeclarationFile
import SuffixLint.Proofs.DeclarationForms
import SuffixLint.Proofs.DeclarationLines
import SuffixLint.Proofs.DeclarationMembers
import SuffixLint.Proofs.Disk.Canonical
import SuffixLint.Proofs.Disk.Extra
import SuffixLint.Proofs.Disk.Tree
import SuffixLint.Proofs.Disk.Walk
import SuffixLint.Proofs.Disk.Write
import SuffixLint.Proofs.Except
import SuffixLint.Proofs.Glob.Anywhere
import SuffixLint.Proofs.Glob.Reading
import SuffixLint.Proofs.Glob.Segment
import SuffixLint.Proofs.Glob.Shape
import SuffixLint.Proofs.Identifier
import SuffixLint.Proofs.Input
import SuffixLint.Proofs.Json.Agreement
import SuffixLint.Proofs.Json.Codec
import SuffixLint.Proofs.Json.Glance
import SuffixLint.Proofs.Json.Grammar
import SuffixLint.Proofs.Json.Layout
import SuffixLint.Proofs.Json.Lexeme
import SuffixLint.Proofs.Json.Members
import SuffixLint.Proofs.Json.OneLine
import SuffixLint.Proofs.Json.Passed
import SuffixLint.Proofs.Json.Record
import SuffixLint.Proofs.Json.Scalar
import SuffixLint.Proofs.Json.Settled
import SuffixLint.Proofs.Json.Skip
import SuffixLint.Proofs.Json.Skipped
import SuffixLint.Proofs.Json.Spelling
import SuffixLint.Proofs.Json.Structure
import SuffixLint.Proofs.Json.Token
import SuffixLint.Proofs.Linter.Accounting
import SuffixLint.Proofs.Linter.Exclusion
import SuffixLint.Proofs.Linter.InputOrder
import SuffixLint.Proofs.Linter.Repair
import SuffixLint.Proofs.Linter.Run
import SuffixLint.Proofs.Path
import SuffixLint.Proofs.Place
import SuffixLint.Proofs.Report.Columns
import SuffixLint.Proofs.Report.NoInput
import SuffixLint.Proofs.Report.Plain
import SuffixLint.Proofs.Report.Region
import SuffixLint.Proofs.Report.RoundTrip
import SuffixLint.Proofs.Report.Sarif
import SuffixLint.Proofs.Report.Summary
import SuffixLint.Proofs.Report.Table
import SuffixLint.Proofs.Settings
import SuffixLint.Proofs.Sorting
import SuffixLint.Proofs.Terminal
import SuffixLint.Proofs.Text.Erase
import SuffixLint.Proofs.Text.Lines
import SuffixLint.Proofs.Text.Places
import SuffixLint.Proofs.Text.Search
import SuffixLint.Proofs.Toml.Document
import SuffixLint.Proofs.Toml.Grammar
import SuffixLint.Proofs.Toml.Lexeme
import SuffixLint.Proofs.Toml.Table
import SuffixLint.Proofs.Verdict
import SuffixLint.Report
import SuffixLint.Report.Format
import SuffixLint.Report.Sarif
import SuffixLint.Report.Text
import SuffixLint.Settings
import SuffixLint.Settings.Load
import SuffixLint.Severity
import SuffixLint.Terminal
import SuffixLint.Text.Blank
import SuffixLint.Text.Hex
import SuffixLint.Text.Lines
import SuffixLint.Text.Quoted
import SuffixLint.Text.Reading
import SuffixLint.Text.Search
import SuffixLint.Text.Unprintable
import SuffixLint.Toml.Document
import SuffixLint.Toml.Lexeme
import SuffixLint.Toml.Number
import SuffixLint.Toml.Table
import SuffixLint.Toml.Value
import SuffixLint.Verdict
import SuffixLint.Walk
