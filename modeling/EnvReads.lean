import EnvReads.Candidate
import EnvReads.CommandLine
import EnvReads.CommandLine.Console
import EnvReads.CommandLine.Options
import EnvReads.Concrete.Convert
import EnvReads.Concrete.Escape
import EnvReads.Concrete.Fault
import EnvReads.Concrete.Numeral
import EnvReads.Concrete.Place
import EnvReads.Concrete.Symbol
import EnvReads.Concrete.Tree
import EnvReads.Declaration.Origin
import EnvReads.Declaration.Resolve
import EnvReads.Declaration.Search
import EnvReads.Double
import EnvReads.Double.Reader
import EnvReads.Double.Shortest
import EnvReads.Double.Spelling
import EnvReads.Fault
import EnvReads.FileSystem
import EnvReads.FileSystem.Change
import EnvReads.Ignore.Filter
import EnvReads.Ignore.Matcher
import EnvReads.Ignore.Pattern
import EnvReads.Ignore.Piece
import EnvReads.Ignore.Rules
import EnvReads.Listing
import EnvReads.Main
import EnvReads.Module.Cache
import EnvReads.Module.Export
import EnvReads.Module.Lookup
import EnvReads.Parse
import EnvReads.Path
import EnvReads.Record
import EnvReads.RunSort
import EnvReads.RunSort.Gallop
import EnvReads.RunSort.Merge
import EnvReads.Scan
import EnvReads.Session
import EnvReads.Site
import EnvReads.SourceUnit
import EnvReads.Syntax.AccessPath
import EnvReads.Syntax.EnvAccess
import EnvReads.Syntax.Kind
import EnvReads.Syntax.Node
import EnvReads.Syntax.Search
import EnvReads.Syntax.Span
import EnvReads.Text
import EnvReads.Text.Blank
import EnvReads.Text.Casing
import EnvReads.Text.Digit
import EnvReads.Text.Lower
import EnvReads.Text.Quoted
import EnvReads.Text.Unprintable
import EnvReads.Text.Utf8
import EnvReads.Value
import EnvReads.Value.Display
import EnvReads.Value.Json
import EnvReads.Value.JsonReader
import EnvReads.Value.Order
import EnvReads.Value.Writable
import EnvReads.Proofs.Reading
import EnvReads.Proofs.ScanDecomposition
import EnvReads.Proofs.SearchOrder
import EnvReads.Proofs.Sample
import EnvReads.Proofs.NameSoundness
import EnvReads.Proofs.EscapeRange
import EnvReads.Proofs.SourcePlaces
import EnvReads.Proofs.RecoveringConversion
import EnvReads.Proofs.Utf8RoundTrip
import EnvReads.Proofs.PositionFaithfulness
import EnvReads.Proofs.UnconfirmedAliases
import EnvReads.Proofs.OriginTrace
import EnvReads.Proofs.ScriptKeys
import EnvReads.Proofs.LiteralCertainty
import EnvReads.Proofs.SameLayout
import EnvReads.Proofs.ModuleReferences
import EnvReads.Proofs.OneHop
import EnvReads.Proofs.FollowedModules
import EnvReads.Proofs.KeptRecords
import EnvReads.Proofs.AliasTransparency
import EnvReads.Proofs.ReportProvenance
import EnvReads.Proofs.RuleResults
import EnvReads.Proofs.ConvertedReads
import EnvReads.Proofs.KeptErrors
import EnvReads.Proofs.FollowedPaths
import EnvReads.Proofs.ListedFiles
import EnvReads.Proofs.LookupQuestions
import EnvReads.Proofs.RegularTrees
import EnvReads.Proofs.NodeQuestions
import EnvReads.Proofs.DeclarationQuestions
import EnvReads.Proofs.ResolutionQuestions
import EnvReads.Proofs.ResolutionFaults
import EnvReads.Proofs.IgnoredPlaces
import EnvReads.Proofs.NestedRules
import EnvReads.Proofs.MatcherPatterns
import EnvReads.Proofs.RulePrecedence
import EnvReads.Proofs.PieceMatching
import EnvReads.Proofs.PlainPatterns
import EnvReads.Proofs.PrunedListing
import EnvReads.Proofs.FileWriting
import EnvReads.Proofs.ReportDelivery
import EnvReads.Proofs.StringSpellings
import EnvReads.Proofs.ConstantKeys
import EnvReads.Proofs.PathTexts
import EnvReads.Proofs.RecordIdentity
import EnvReads.Proofs.TemplatePieces
import EnvReads.Proofs.EmittedNodes
import EnvReads.Proofs.LaidOutTrees
import EnvReads.Proofs.SourceOrder
import EnvReads.Proofs.IntegerLiterals
import EnvReads.Proofs.ReportReading
import EnvReads.Proofs.NearestPackage
import EnvReads.Proofs.DeclarationForms
import EnvReads.Proofs.FirstError
import EnvReads.Proofs.LoadedOnce
