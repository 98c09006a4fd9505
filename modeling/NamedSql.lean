import NamedSql.FileSystem
import NamedSql.Main
import NamedSql.Proofs.Segmentation
import NamedSql.Proofs.RegionGrammar
import NamedSql.Proofs.WholeWords
import NamedSql.Proofs.SplitSpans
import NamedSql.Proofs.SplitJoin
import NamedSql.Proofs.CommentRemoval
import NamedSql.Proofs.Nesting
import NamedSql.Proofs.TokenJoin
import NamedSql.Proofs.MainVerb
import NamedSql.Proofs.ReturningClause
import NamedSql.Proofs.CommonTables
import NamedSql.Proofs.AnalysisCoherence
import NamedSql.Proofs.CaseChange
import NamedSql.Proofs.BlankEnds
import NamedSql.Proofs.SplitRemoval
import NamedSql.Proofs.Reparsing
import NamedSql.Proofs.FirstAppearance
import NamedSql.Proofs.ParameterRuns
import NamedSql.Proofs.ParameterPlaces
import NamedSql.Proofs.SliceBounds
import NamedSql.Proofs.RegionContent
import NamedSql.Proofs.RegionExchange
import NamedSql.Proofs.Extents
import NamedSql.Proofs.MarkerForm
import NamedSql.Proofs.TemplateLines
import NamedSql.Proofs.MarkerContext
import NamedSql.Proofs.StatementPlaces
import NamedSql.Proofs.ClearLines
import NamedSql.Proofs.TemplateLayout
import NamedSql.Proofs.NameAssignment
import NamedSql.Proofs.SourceFidelity
import NamedSql.Proofs.CommentPolicy
import NamedSql.Proofs.TemplateErrors
import NamedSql.Proofs.MarkerPlaces
import NamedSql.Proofs.TextBehind
import NamedSql.Proofs.TemplateJoin
import NamedSql.Proofs.LineEndings
import NamedSql.Proofs.LineEndingScan
import NamedSql.Proofs.TemplateLineEndings
import NamedSql.Proofs.Offsets.Text
import NamedSql.Proofs.Offsets.Regions
import NamedSql.Proofs.Offsets.Segments
import NamedSql.Proofs.Offsets.Statements
import NamedSql.Proofs.Offsets.Words
import NamedSql.Proofs.Offsets.Analysis
import NamedSql.Proofs.Offsets.Markers
import NamedSql.Proofs.Offsets.Template
import NamedSql.Proofs.FreeNames
import NamedSql.Proofs.ManifestNames
import NamedSql.Proofs.FallbackNames
import NamedSql.Proofs.FileWrites
import NamedSql.Proofs.OutputFiles
import NamedSql.Proofs.OutputPlaces
import NamedSql.Proofs.ReportRows
import NamedSql.Proofs.ReportSections
import NamedSql.Proofs.CommandInputs
import NamedSql.Proofs.CommandRuns
import NamedSql.Proofs.JsonTokens
import NamedSql.Proofs.JsonValues
import NamedSql.Proofs.ManifestJson
