import Retrace.Catalog
import Retrace.CommandLine.Arguments
import Retrace.CommandLine.Command
import Retrace.CommandLine.Files
import Retrace.CommandLine.Request
import Retrace.Configuration
import Retrace.Confusion
import Retrace.Data.Csv
import Retrace.Data.Dataset
import Retrace.Data.Encoding
import Retrace.Data.LibSvm
import Retrace.Data.Source
import Retrace.Data.Table
import Retrace.Decimal.Exact
import Retrace.Decimal.Fixed
import Retrace.Decimal.Layout
import Retrace.Decimal.Reading
import Retrace.Decimal.Shortest
import Retrace.Directory
import Retrace.Draws
import Retrace.Error
import Retrace.FeatureMap
import Retrace.Folder
import Retrace.Instant
import Retrace.Instant.Reading
import Retrace.Json.Basic
import Retrace.Json.Parsing
import Retrace.Json.Printing
import Retrace.Json.Reading
import Retrace.Kernel
import Retrace.KernelMatrix
import Retrace.Keyed
import Retrace.LabelCounts
import Retrace.Main
import Retrace.Model
import Retrace.Model.Encoding
import Retrace.Model.File
import Retrace.Path
import Retrace.Proofs.AlikeLookups
import Retrace.Proofs.AlikeNodes
import Retrace.Proofs.Blueprint
import Retrace.Proofs.CacheSizes
import Retrace.Proofs.Calendar
import Retrace.Proofs.CleanLookups
import Retrace.Proofs.ComparedNodes
import Retrace.Proofs.ComponentNames
import Retrace.Proofs.ComposedFilters
import Retrace.Proofs.Countdown
import Retrace.Proofs.CraftedWorkshop
import Retrace.Proofs.DataSizes
import Retrace.Proofs.DatasetRecovery
import Retrace.Proofs.DenseDistances
import Retrace.Proofs.DenseProducts
import Retrace.Proofs.DependencyOrder
import Retrace.Proofs.DescribedComponents
import Retrace.Proofs.Difference
import Retrace.Proofs.DirectObjects
import Retrace.Proofs.Discovery
import Retrace.Proofs.DoubleArithmetic
import Retrace.Proofs.DoubleBits
import Retrace.Proofs.DoubleEquality
import Retrace.Proofs.DoubleOrder
import Retrace.Proofs.DoubleSymmetry
import Retrace.Proofs.ExactReport
import Retrace.Proofs.Extraction
import Retrace.Proofs.ExtractionFaults
import Retrace.Proofs.FaithfulWorkshop
import Retrace.Proofs.FeasibleSearch
import Retrace.Proofs.FirstTrainer
import Retrace.Proofs.FittingSamples
import Retrace.Proofs.ImprovingSearch
import Retrace.Proofs.IndexedFormat
import Retrace.Proofs.JsonDoubles
import Retrace.Proofs.JsonNesting
import Retrace.Proofs.JsonValues
import Retrace.Proofs.KernelMemory
import Retrace.Proofs.Lineage
import Retrace.Proofs.LoadedModels
import Retrace.Proofs.LookupOutcomes
import Retrace.Proofs.LookupRecursion
import Retrace.Proofs.MirroredReports
import Retrace.Proofs.NumberedLines
import Retrace.Proofs.Occurrences
import Retrace.Proofs.OwnCounts
import Retrace.Proofs.PassedEntries
import Retrace.Proofs.Plans
import Retrace.Proofs.PolynomialPowers
import Retrace.Proofs.PostOrder
import Retrace.Proofs.PrintedAccuracy
import Retrace.Proofs.PrintedDoubles
import Retrace.Proofs.PrintedInstants
import Retrace.Proofs.PrintedJson
import Retrace.Proofs.RecentRequests
import Retrace.Proofs.RecordedDoubles
import Retrace.Proofs.RecoverableTrainers
import Retrace.Proofs.RelocatedExtraction
import Retrace.Proofs.RelocatedLineages
import Retrace.Proofs.RelocatedRecords
import Retrace.Proofs.RelocatedRecovery
import Retrace.Proofs.Relocation
import Retrace.Proofs.RenderedDomains
import Retrace.Proofs.RenderedReports
import Retrace.Proofs.Renumbering
import Retrace.Proofs.RepeatedRecovery
import Retrace.Proofs.RepeatedReproduction
import Retrace.Proofs.ReproductionCalls
import Retrace.Proofs.ReproductionStages
import Retrace.Proofs.ReproductionUses
import Retrace.Proofs.RestoredCounts
import Retrace.Proofs.RetainedViews
import Retrace.Proofs.Retraining
import Retrace.Proofs.RoundedProducts
import Retrace.Proofs.Rounding
import Retrace.Proofs.Routes
import Retrace.Proofs.SampleCounts
import Retrace.Proofs.SavedModels
import Retrace.Proofs.SearchErrors
import Retrace.Proofs.SearchHistory
import Retrace.Proofs.SearchResults
import Retrace.Proofs.SearchSteps
import Retrace.Proofs.SeparatedFormat
import Retrace.Proofs.ShiftedHandles
import Retrace.Proofs.ShortestDecimals
import Retrace.Proofs.SplitPositions
import Retrace.Proofs.StoredEntries
import Retrace.Proofs.StoredFiles
import Retrace.Proofs.StoredModels
import Retrace.Proofs.StoredRecords
import Retrace.Proofs.SymmetricKernels
import Retrace.Proofs.TrainedModels
import Retrace.Proofs.TrainedRecord
import Retrace.Proofs.TrainerConfiguration
import Retrace.Proofs.TrainerRecovery
import Retrace.Proofs.TrainerUses
import Retrace.Proofs.UnalignedLists
import Retrace.Proofs.UnbrokenSearch
import Retrace.Proofs.ViewedComparisons
import Retrace.Proofs.VisibleDoubles
import Retrace.Proofs.WholeNumbers
import Retrace.Proofs.Workshop
import Retrace.Proofs.WorkshopCalls
import Retrace.Record.Basic
import Retrace.Record.Difference
import Retrace.Record.Encoding
import Retrace.Record.Equality
import Retrace.Record.Extraction
import Retrace.Record.Lineage
import Retrace.Record.Model
import Retrace.Record.Ordering
import Retrace.Record.Report
import Retrace.Reproduction
import Retrace.Sample
import Retrace.Scalar
import Retrace.Smo
import Retrace.SparseVector
import Retrace.Text.Blank
import Retrace.Text.CaseRanges
import Retrace.Text.Fields
import Retrace.Text.HiddenRanges
import Retrace.Text.Lines
import Retrace.Text.Lowercase
import Retrace.Text.Quoted
import Retrace.Trainer
import Retrace.Workshop
