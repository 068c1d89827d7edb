import DefTable.Main
import DefTable.Workbench
import DefTable.Proofs.LiteralReading
import DefTable.Proofs.PrintedForm
import DefTable.Proofs.TargetScan
import DefTable.Proofs.PrintedLexemes
import DefTable.Proofs.TableRendering
import DefTable.Proofs.TextReading
import DefTable.Proofs.FileReading
import DefTable.Proofs.ScanWeight
import DefTable.Proofs.OperatorParsing
import DefTable.Proofs.Traversal
import DefTable.Proofs.NormalForm
import DefTable.Proofs.TokenSpelling
import DefTable.Proofs.DerivationSoundness
import DefTable.Proofs.Rewriting
import DefTable.Proofs.WellFormedTrees
import DefTable.Proofs.CanonicalForm
import DefTable.Proofs.DerivationCompleteness
import DefTable.Proofs.Wording
import DefTable.Proofs.Unparsing
import DefTable.Proofs.NextTokens
import DefTable.Proofs.Rereading
import DefTable.Proofs.PrintedWording
import DefTable.Proofs.PrintedScan
import DefTable.Proofs.SourceRoundTrip
import DefTable.Proofs.NameResolution
import DefTable.Proofs.OffsetShift
import DefTable.Proofs.SourceJoin
import DefTable.Proofs.Correspondence
import DefTable.Proofs.Lockstep
import DefTable.Proofs.Concatenation
import DefTable.Proofs.Spacing
import DefTable.Proofs.Respacing
import DefTable.Proofs.Balance
import DefTable.Proofs.Brackets
import DefTable.Proofs.GroupedDefinitions
import DefTable.Proofs.Reordering
import DefTable.Proofs.CodeNames
import DefTable.Proofs.StringParts
import DefTable.Proofs.Refusals
import DefTable.Proofs.ListContents
import DefTable.Proofs.AllOrNothing
import DefTable.Proofs.TypePaths
import DefTable.Proofs.TypeQualifier
import DefTable.Proofs.Interpolations
import DefTable.Proofs.Escapes
import DefTable.Proofs.Coupling
import DefTable.Proofs.QualifiedNames
import DefTable.Proofs.Places
import DefTable.Proofs.PlacedFaults
import DefTable.Proofs.ChangedScan
import DefTable.Proofs.AlternativeOperands
import DefTable.Proofs.PartedSigns
import DefTable.Proofs.HopelessLabels
import DefTable.Proofs.ValidPrefix
import DefTable.Proofs.Readers
import DefTable.Proofs.Progress
import DefTable.Proofs.ByteTokens
