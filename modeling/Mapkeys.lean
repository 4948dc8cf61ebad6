import Mapkeys.Command.Export
import Mapkeys.Main
import Mapkeys.Proofs.Blanks
import Mapkeys.Proofs.CyclicStatus
import Mapkeys.Proofs.Depth
import Mapkeys.Proofs.Layouts
import Mapkeys.Proofs.DocumentTokens
import Mapkeys.Proofs.StatementExtent
import Mapkeys.Proofs.TokenNesting
import Mapkeys.Proofs.Innermost
import Mapkeys.Proofs.RecordGrammar
import Mapkeys.Proofs.RelocatedTokens
import Mapkeys.Proofs.Concatenation
import Mapkeys.Proofs.DefinitionTexts
import Mapkeys.Proofs.Flow
import Mapkeys.Proofs.FlowingLayouts
import Mapkeys.Proofs.FoldedTexts
import Mapkeys.Proofs.Folding
import Mapkeys.Proofs.LineEnds
import Mapkeys.Proofs.TrailingBlanks
import Mapkeys.Proofs.RecordSources
import Mapkeys.Proofs.Remarks
import Mapkeys.Proofs.ReportedCycles
import Mapkeys.Proofs.NestingStatus
import Mapkeys.Proofs.LineParts
import Mapkeys.Proofs.SharedNames
import Mapkeys.Proofs.TokenSources
import Mapkeys.Proofs.LineSpelling
import Mapkeys.Proofs.Semicolons
import Mapkeys.Proofs.CallPlaces
import Mapkeys.Proofs.StatementValues
import Mapkeys.Proofs.ContentEnds
import Mapkeys.Proofs.TransitiveCalls
import Mapkeys.Proofs.GraphViews
import Mapkeys.Proofs.PositionLookups
import Mapkeys.Proofs.Brackets
import Mapkeys.Proofs.RegionMarks
import Mapkeys.Proofs.RegionFolds
import Mapkeys.Proofs.WrittenLines
import Mapkeys.Proofs.DotReading
import Mapkeys.Proofs.Flowcharts
import Mapkeys.Proofs.LineSeparators
import Mapkeys.Proofs.LineDecomposition
import Mapkeys.Proofs.Escapes
import Mapkeys.Proofs.SearchRuns
