import PropertyIndex.KeyedList
import PropertyIndex.Text.Lowercase
import PropertyIndex.Text.Occurrence
import PropertyIndex.Text.Line
import PropertyIndex.Source.Block
import PropertyIndex.Note
import PropertyIndex.Text.NameSet
import PropertyIndex.Spec.Method
import PropertyIndex.Spec.Property
import PropertyIndex.Contract.FunctionTable
import PropertyIndex.Contract.StateVariable
import PropertyIndex.Contract.Mutation
import PropertyIndex.Linkage
import PropertyIndex.Spec.CrossReference
import PropertyIndex.Text.Normal
import PropertyIndex.Text.Wildcard
import PropertyIndex.Json.Printer
import PropertyIndex.Record.Json
import PropertyIndex.Analysis
import PropertyIndex.Record.Reader
import PropertyIndex.Yaml.Reader
import PropertyIndex.Storage.Path
import PropertyIndex.Storage.Tree
import PropertyIndex.Settings.Reader
import PropertyIndex.Command.Run
import PropertyIndex.Batch.Pool
import PropertyIndex.Main
import PropertyIndex.Proofs.Expansion
import PropertyIndex.Proofs.WalkAgreement
import PropertyIndex.Proofs.ExpansionOrder
import PropertyIndex.Proofs.FunctionTable
import PropertyIndex.Proofs.FunctionListing
import PropertyIndex.Proofs.IndexedRecords
import PropertyIndex.Proofs.UnmentionedProperties
import PropertyIndex.Proofs.JsonToken
import PropertyIndex.Proofs.JsonRoundTrip
import PropertyIndex.Proofs.StoredLinkage
import PropertyIndex.Proofs.LinkageReadBack
import PropertyIndex.Proofs.Artifact
import PropertyIndex.Proofs.BlockEnd
import PropertyIndex.Proofs.Definition
import PropertyIndex.Proofs.DefinitionReading
import PropertyIndex.Proofs.RecoveredProperties
import PropertyIndex.Proofs.RecordIdentity
import PropertyIndex.Proofs.Segment
import PropertyIndex.Proofs.Utf8
import PropertyIndex.Proofs.LineSpan
import PropertyIndex.Proofs.BlockCut
import PropertyIndex.Proofs.BlockPosition
import PropertyIndex.Proofs.Noting
import PropertyIndex.Proofs.ReportOrder
import PropertyIndex.Proofs.WorkerPool
import PropertyIndex.Proofs.CanonicalText
import PropertyIndex.Proofs.DeclarationForm
import PropertyIndex.Proofs.LineEnd
import PropertyIndex.Proofs.LineEndIndependence
import PropertyIndex.Proofs.LinkedInvariants
import PropertyIndex.Proofs.SummaryCounts
import PropertyIndex.Proofs.Padding
import PropertyIndex.Proofs.ReturnedCells
import PropertyIndex.Proofs.ReturnedBlocks
import PropertyIndex.Proofs.RespacedDeclarations
import PropertyIndex.Proofs.PatternMatching
import PropertyIndex.Proofs.TreeNode
import PropertyIndex.Proofs.BatchRerun
import PropertyIndex.Proofs.NormalForm
import PropertyIndex.Proofs.NormalComments
import PropertyIndex.Proofs.MaskedBytes
import PropertyIndex.Proofs.ExactLinkage
import PropertyIndex.Proofs.StateChange
import PropertyIndex.Proofs.BlockExtent
import PropertyIndex.Proofs.FinishedBlocks
import PropertyIndex.Proofs.DeclaringLine
import PropertyIndex.Proofs.RecoveredMethods
import PropertyIndex.Proofs.BlockCells
import PropertyIndex.Proofs.DeclarationSite
import PropertyIndex.Proofs.DeclarationReading
import PropertyIndex.Proofs.VariableDeclaration
import PropertyIndex.Proofs.RecoveredVariables
import PropertyIndex.Proofs.VariableSite
