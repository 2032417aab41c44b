import EditorLint.Text.Units
import EditorLint.LintError
import EditorLint.Text.LineTable
import EditorLint.Edit.Basic
import EditorLint.Edit.Application
import EditorLint.Json.Value
import EditorLint.Text.Digits
import EditorLint.Json.Printer
import EditorLint.Json.Raw
import EditorLint.Json.Record
import EditorLint.Finding
import EditorLint.Report
import EditorLint.Diagnostic
import EditorLint.InsertionMap
import EditorLint.FindingIndex
import EditorLint.FixAction
import EditorLint.Path
import EditorLint.FileTree
import EditorLint.Settings.Basic
import EditorLint.Text.Blank
import EditorLint.Yaml.Cursor
import EditorLint.Yaml.Scalar
import EditorLint.Yaml.Token
import EditorLint.Yaml.Property
import EditorLint.Yaml.Lexer
import EditorLint.Yaml.Node
import EditorLint.Settings.Document
import EditorLint.Settings.File
import EditorLint.Engine
import EditorLint.Host
import EditorLint.Service
import EditorLint.Execution
import EditorLint.Resolution
import EditorLint.CommandLinter
import EditorLint.CommandLine.Arguments
import EditorLint.CommandLine.Failure
import EditorLint.CommandLine.FileLint
import EditorLint.Glob.Pattern
import EditorLint.Glob.Match
import EditorLint.SourceFiles
import EditorLint.CommandLine.Program
import EditorLint.Server.Range
import EditorLint.Text.Lossy
import EditorLint.Uri.Percent
import EditorLint.Uri.Basic
import EditorLint.Text.Split
import EditorLint.Uri.Punycode
import EditorLint.Uri.Host
import EditorLint.Uri.Reading
import EditorLint.Server.ShownDiagnostic
import EditorLint.Server.Message
import EditorLint.Server.Method
import EditorLint.Server.CodeAction
import EditorLint.Server.Session
import EditorLint.Server.Connection
import EditorLint.Main
import EditorLint.Proofs.Text.Boundary
import EditorLint.Proofs.Text.LineTable
import EditorLint.Proofs.Text.Offset
import EditorLint.Proofs.Text.Position
import EditorLint.Proofs.Text.Place
import EditorLint.Proofs.Text.Lines
import EditorLint.Proofs.Text.RoundTrip
import EditorLint.Proofs.Text.PlainScan
import EditorLint.Proofs.Text.InsertedLine
import EditorLint.Proofs.Edit.StableOrder
import EditorLint.Proofs.Edit.Selection
import EditorLint.Proofs.Edit.Maximal
import EditorLint.Proofs.Edit.SameSelection
import EditorLint.Proofs.Edit.Layout
import EditorLint.Proofs.Edit.AnyOrder
import EditorLint.Proofs.Edit.Acceptance
import EditorLint.Proofs.InsertionMap
import EditorLint.Proofs.RangeKey
import EditorLint.Proofs.FileTree
import EditorLint.Proofs.Service.Lint
import EditorLint.Proofs.Service.Located
import EditorLint.Proofs.Service.History
import EditorLint.Proofs.FindingIndex
import EditorLint.Proofs.Service.Trail
import EditorLint.Proofs.CommandLine.FixPasses
import EditorLint.Proofs.CommandLine.FileLint
import EditorLint.Proofs.FixAction
import EditorLint.Proofs.Remedies
import EditorLint.Proofs.DisableComment
import EditorLint.Proofs.CommandLine.Leftover
import EditorLint.Proofs.Server.Reload
import EditorLint.Proofs.Server.Dialogue
import EditorLint.Proofs.Server.Record
import EditorLint.Proofs.Server.Faithful
import EditorLint.Proofs.Server.CodeAction
import EditorLint.Proofs.Server.Publication
import EditorLint.Proofs.Server.LastLint
import EditorLint.Proofs.Server.Echo
import EditorLint.Proofs.Server.Standing
import EditorLint.Proofs.Server.LastPublication
import EditorLint.Proofs.Server.ClientText
import EditorLint.Proofs.Server.CarriedOut
import EditorLint.Proofs.Server.Applicable
import EditorLint.Proofs.Service.Stages
import EditorLint.Proofs.Service.Agreement
import EditorLint.Proofs.Service.OwnDiagnostics
import EditorLint.Proofs.Service.CodeFixes
import EditorLint.Proofs.Service.Batches
import EditorLint.Proofs.Server.SettingsInForce
import EditorLint.Proofs.Path
import EditorLint.Proofs.Resolution
import EditorLint.Proofs.ResolutionCache
import EditorLint.Proofs.Service.Fresh
import EditorLint.Proofs.CommandLine.Steady
import EditorLint.Proofs.CommandLine.Closing
import EditorLint.Proofs.CommandLine.Independent
import EditorLint.Proofs.CommandLine.ReportedPlace
import EditorLint.Proofs.CommandLinter
import EditorLint.Proofs.Server.Workspace
import EditorLint.Proofs.Server.DistinctOffers
import EditorLint.Proofs.SourceFiles
import EditorLint.Proofs.WordArithmetic
import EditorLint.Proofs.Json.Literals
import EditorLint.Proofs.Json.RoundTrip
import EditorLint.Proofs.Json.Change
import EditorLint.Proofs.Report
import EditorLint.Proofs.CheckedAccess
