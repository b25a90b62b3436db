import HouseStyle.CommandLine.Arguments
import HouseStyle.CommandLine.Console
import HouseStyle.CommandLine.Run
import HouseStyle.Config.Basic
import HouseStyle.Config.Parse
import HouseStyle.Config.Value
import HouseStyle.Declaration.Bracket
import HouseStyle.Declaration.Declarator
import HouseStyle.Declaration.Extraction
import HouseStyle.Declaration.Head
import HouseStyle.Declaration.Model
import HouseStyle.Declaration.Progress
import HouseStyle.Declaration.Reading
import HouseStyle.Declaration.Specifier
import HouseStyle.Declaration.Statement
import HouseStyle.Declaration.TypeName
import HouseStyle.Declaration.TypeText
import HouseStyle.Detection
import HouseStyle.Diff.Matching
import HouseStyle.Diff.Unified
import HouseStyle.Fix.Batch
import HouseStyle.Formatter
import HouseStyle.Log
import HouseStyle.Main
import HouseStyle.Name.Style
import HouseStyle.Number.Binary64
import HouseStyle.Number.Reading
import HouseStyle.Path
import HouseStyle.Path.Glob
import HouseStyle.Path.Pattern
import HouseStyle.Project.Check
import HouseStyle.Project.Discovery
import HouseStyle.Project.Fixing
import HouseStyle.Project.Target
import HouseStyle.Project.Tree
import HouseStyle.Proofs.AdjacentRuns
import HouseStyle.Proofs.Aggregate
import HouseStyle.Proofs.AsciiCase
import HouseStyle.Proofs.Backups
import HouseStyle.Proofs.Batch
import HouseStyle.Proofs.CarriageReturns
import HouseStyle.Proofs.CastEdits
import HouseStyle.Proofs.Conversion
import HouseStyle.Proofs.ConvertedLetters
import HouseStyle.Proofs.CoreExtraction
import HouseStyle.Proofs.CoreGrammar
import HouseStyle.Proofs.CoreHeads
import HouseStyle.Proofs.CutShort
import HouseStyle.Proofs.Cutting
import HouseStyle.Proofs.DirectoryPatterns
import HouseStyle.Proofs.DistinctTokens
import HouseStyle.Proofs.DryRun
import HouseStyle.Proofs.Enclosures
import HouseStyle.Proofs.FirstDifference
import HouseStyle.Proofs.FixConflicts
import HouseStyle.Proofs.FixEffects
import HouseStyle.Proofs.FixedFiles
import HouseStyle.Proofs.FixedPoints
import HouseStyle.Proofs.FixedReport
import HouseStyle.Proofs.FixingRun
import HouseStyle.Proofs.FormatterPass
import HouseStyle.Proofs.FoundFiles
import HouseStyle.Proofs.GuardPlace
import HouseStyle.Proofs.Heads
import HouseStyle.Proofs.InOrder
import HouseStyle.Proofs.Inserted
import HouseStyle.Proofs.KeptNotes
import HouseStyle.Proofs.Layouts
import HouseStyle.Proofs.LineEnds
import HouseStyle.Proofs.LinePositions
import HouseStyle.Proofs.LineRestart
import HouseStyle.Proofs.LiteralContents
import HouseStyle.Proofs.LiteralReports
import HouseStyle.Proofs.LocalRenames
import HouseStyle.Proofs.Lookahead
import HouseStyle.Proofs.MarkedRegions
import HouseStyle.Proofs.MarkerLists
import HouseStyle.Proofs.MarkerSites
import HouseStyle.Proofs.MarkerSteps
import HouseStyle.Proofs.MovedTokens
import HouseStyle.Proofs.Naming
import HouseStyle.Proofs.Nesting
import HouseStyle.Proofs.PlacedReports
import HouseStyle.Proofs.PlannedBatch
import HouseStyle.Proofs.PositionedDeclarators
import HouseStyle.Proofs.PositionedExtraction
import HouseStyle.Proofs.PositionedHeads
import HouseStyle.Proofs.PositionedStatements
import HouseStyle.Proofs.Positions
import HouseStyle.Proofs.Provenance
import HouseStyle.Proofs.Quantities
import HouseStyle.Proofs.Readers
import HouseStyle.Proofs.Recording
import HouseStyle.Proofs.Relabelling
import HouseStyle.Proofs.Releases
import HouseStyle.Proofs.RenameMerging
import HouseStyle.Proofs.RenamedText
import HouseStyle.Proofs.Renaming
import HouseStyle.Proofs.ReplacedWord
import HouseStyle.Proofs.ReportOrder
import HouseStyle.Proofs.ReportTexts
import HouseStyle.Proofs.Reporting
import HouseStyle.Proofs.Rounding
import HouseStyle.Proofs.RuleReports
import HouseStyle.Proofs.RuleTables
import HouseStyle.Proofs.SameUpToNames
import HouseStyle.Proofs.Schedules
import HouseStyle.Proofs.ScopeBraces
import HouseStyle.Proofs.ScopeTree
import HouseStyle.Proofs.ScopedEnums
import HouseStyle.Proofs.Scopes
import HouseStyle.Proofs.ScopesInStep
import HouseStyle.Proofs.SecondRun
import HouseStyle.Proofs.SelectedFiles
import HouseStyle.Proofs.SpecifierOrder
import HouseStyle.Proofs.Steps
import HouseStyle.Proofs.StrayBytes
import HouseStyle.Proofs.StyleAgreement
import HouseStyle.Proofs.Substitution
import HouseStyle.Proofs.Suppressed
import HouseStyle.Proofs.TimeLimits
import HouseStyle.Proofs.TokenPlaces
import HouseStyle.Proofs.Tree
import HouseStyle.Proofs.TypeTexts
import HouseStyle.Proofs.Utf8
import HouseStyle.Proofs.ValidTables
import HouseStyle.Proofs.WrittenBytes
import HouseStyle.Report.Aggregate
import HouseStyle.Report.Json
import HouseStyle.Report.Lines
import HouseStyle.Rule.Basic
import HouseStyle.Rule.Casts
import HouseStyle.Rule.Enums
import HouseStyle.Rule.Interface
import HouseStyle.Rule.Layout
import HouseStyle.Rule.Naming
import HouseStyle.Rule.Ownership
import HouseStyle.Rule.Registry
import HouseStyle.SourceFile
import HouseStyle.Suppression
import HouseStyle.Text.Blank
import HouseStyle.Text.Case
import HouseStyle.Text.Cell
import HouseStyle.Text.CodeRange
import HouseStyle.Text.Glyph
import HouseStyle.Text.Letter
import HouseStyle.Text.Place
import HouseStyle.Text.Quoted
import HouseStyle.Text.Shortcode
import HouseStyle.Text.Shortcode.Table
import HouseStyle.Text.Utf8
import HouseStyle.Text.Visible
import HouseStyle.Token.Basic
import HouseStyle.Token.Lexeme
import HouseStyle.Token.Piece
import HouseStyle.Toml.Document
import HouseStyle.Toml.Node
import HouseStyle.Toml.Quotation
import HouseStyle.Toml.Scalar
import HouseStyle.Violation
import HouseStyle.Workers
