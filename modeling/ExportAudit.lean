import ExportAudit.Analysis
import ExportAudit.Analysis.Record
import ExportAudit.Command
import ExportAudit.Command.Options
import ExportAudit.CompilerConfig
import ExportAudit.Decimal
import ExportAudit.Discovery
import ExportAudit.Extraction
import ExportAudit.Fact
import ExportAudit.Fact.Record
import ExportAudit.FileTree
import ExportAudit.Http
import ExportAudit.ImportGraph
import ExportAudit.InterfaceUsage
import ExportAudit.Journal
import ExportAudit.Json.Comments
import ExportAudit.Json.Reader
import ExportAudit.Json.Writer
import ExportAudit.Liveness
import ExportAudit.Main
import ExportAudit.Path
import ExportAudit.Project
import ExportAudit.Regex
import ExportAudit.Report
import ExportAudit.Resolution
import ExportAudit.Route.Expression
import ExportAudit.Route.Layout
import ExportAudit.Route.Pattern
import ExportAudit.Session
import ExportAudit.Settings.Basic
import ExportAudit.Settings.Layers
import ExportAudit.Source.Cursor
import ExportAudit.Source.Element
import ExportAudit.Source.Expression
import ExportAudit.Source.Grammar
import ExportAudit.Source.Literal
import ExportAudit.Source.Rule
import ExportAudit.Source.Statement
import ExportAudit.Source.Tree
import ExportAudit.Source.Types
import ExportAudit.Text.Basic
import ExportAudit.Text.Digits
import ExportAudit.Text.LetterCase
import ExportAudit.Text.OpenFile
import ExportAudit.Text.Printable
import ExportAudit.Text.Quoted
import ExportAudit.Text.Utf8
import ExportAudit.Trigger
import ExportAudit.Url
import ExportAudit.UsageMatch
import ExportAudit.Value
import ExportAudit.Yaml.Document
import ExportAudit.Yaml.Lexer
import ExportAudit.Yaml.Mark
import ExportAudit.Yaml.Node
import ExportAudit.Yaml.Reading
import ExportAudit.Yaml.Scalar
import ExportAudit.Yaml.ScalarValue
import ExportAudit.Yaml.Source
import ExportAudit.Yaml.Tag
import ExportAudit.Yaml.Token
import ExportAudit.Proofs.Attachment
import ExportAudit.Proofs.CanonicalPath
import ExportAudit.Proofs.ResolverMemory
import ExportAudit.Proofs.Outcome
import ExportAudit.Proofs.Partition
import ExportAudit.Proofs.Classification
import ExportAudit.Proofs.Settling
import ExportAudit.Proofs.RuleOrder
import ExportAudit.Proofs.ResolverHistory
import ExportAudit.Proofs.ImportAccounts
import ExportAudit.Proofs.ImportedFiles
import ExportAudit.Proofs.UsageShares
import ExportAudit.Proofs.Evidence
import ExportAudit.Proofs.Address
import ExportAudit.Proofs.TargetHost
import ExportAudit.Proofs.CommentedJson
import ExportAudit.Proofs.OrderIndependence
import ExportAudit.Proofs.Monotonicity
import ExportAudit.Proofs.RouteRoots
import ExportAudit.Proofs.RunSteps
import ExportAudit.Proofs.Publishing
import ExportAudit.Proofs.FreshRuns
import ExportAudit.Proofs.SearchOrder
import ExportAudit.Proofs.GraphHistory
import ExportAudit.Proofs.RespelledCopies
import ExportAudit.Proofs.OverlappingCalls
import ExportAudit.Proofs.AliasChoice
import ExportAudit.Proofs.Reachability
import ExportAudit.Proofs.CycleListing
import ExportAudit.Proofs.Dependents
import ExportAudit.Proofs.RouteForms
import ExportAudit.Proofs.RouteMatching
import ExportAudit.Proofs.Passages
import ExportAudit.Proofs.LastLink
import ExportAudit.Proofs.RootedSearch
import ExportAudit.Proofs.ExtendsChain
import ExportAudit.Proofs.EntriesBelow
import ExportAudit.Proofs.VendorCode
import ExportAudit.Proofs.DiscoveredFiles
import ExportAudit.Proofs.Failures
import ExportAudit.Proofs.UsageAttribution
import ExportAudit.Proofs.ReferenceAggregation
import ExportAudit.Proofs.MappingKeys
import ExportAudit.Proofs.SettingsLayers
import ExportAudit.Proofs.FileBlocks
import ExportAudit.Proofs.TokenFaults
import ExportAudit.Proofs.DocumentFaults
import ExportAudit.Proofs.SettingsFaults
import ExportAudit.Proofs.JsonGrammar
import ExportAudit.Proofs.TargetPath
import ExportAudit.Proofs.PlainJson
import ExportAudit.Proofs.RelativePaths
import ExportAudit.Proofs.RouteListing
import ExportAudit.Proofs.UnreadableFiles
import ExportAudit.Proofs.Debouncing
import ExportAudit.Proofs.ReportSections
import ExportAudit.Proofs.UnlinkedPlaces
import ExportAudit.Proofs.ReaderResults
import ExportAudit.Proofs.ExportedFunctions
import ExportAudit.Proofs.GraphAnswers
import ExportAudit.Proofs.RegexMatching
import ExportAudit.Proofs.RouteExpression
import ExportAudit.Proofs.TreeWalk
