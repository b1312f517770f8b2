import StoreLint.Files.Tree
import StoreLint.Main
import StoreLint.Proofs.Grammar
import StoreLint.Proofs.LayoutFree
import StoreLint.Proofs.LoopStores
import StoreLint.Proofs.RoundTrip
import StoreLint.Text.LineDiff
import StoreLint.Proofs.FirstError
import StoreLint.Proofs.LexicalGrammar
import StoreLint.Proofs.Lines
import StoreLint.Proofs.QuotedLine
import StoreLint.Proofs.OneVariable
import StoreLint.Proofs.RuleNames
import StoreLint.Proofs.ResultShape
import StoreLint.Proofs.RuleEffects
import StoreLint.Proofs.Places
import StoreLint.Proofs.Discovery
import StoreLint.Proofs.Rotation
import StoreLint.Proofs.FirstOverwriter
import StoreLint.Proofs.LineEndings
import StoreLint.Proofs.ManyFiles
import StoreLint.Proofs.Appending
import StoreLint.Proofs.ReportOrdering
import StoreLint.Proofs.Offsets
import StoreLint.Proofs.LineCount
import StoreLint.Proofs.DiffSides
import StoreLint.Proofs.MissingStatements
import StoreLint.Proofs.UpwardSearch
import StoreLint.Proofs.TokenSpans
import StoreLint.Proofs.Progress
import StoreLint.Proofs.TableInvariant
import StoreLint.Proofs.StyledText
