import TaggedRecords.Collection
import TaggedRecords.Declaration
import TaggedRecords.Proofs.Accounts
import TaggedRecords.Proofs.AddressedRuns
import TaggedRecords.Proofs.BlurredNumbers
import TaggedRecords.Proofs.BoundRules
import TaggedRecords.Proofs.BuildFaults
import TaggedRecords.Proofs.BulkOperations
import TaggedRecords.Proofs.CacheHistories
import TaggedRecords.Proofs.ChainWrites
import TaggedRecords.Proofs.CleanDocuments
import TaggedRecords.Proofs.Coherence
import TaggedRecords.Proofs.CollectedFields
import TaggedRecords.Proofs.CommutingMerges
import TaggedRecords.Proofs.ComparedRuns
import TaggedRecords.Proofs.Conformance
import TaggedRecords.Proofs.ConformingRuns
import TaggedRecords.Proofs.ContainedWrites
import TaggedRecords.Proofs.Conversions
import TaggedRecords.Proofs.DeepMerge
import TaggedRecords.Proofs.DepthGuard
import TaggedRecords.Proofs.DepthLimits
import TaggedRecords.Proofs.DisplayNames
import TaggedRecords.Proofs.DistinctKeys
import TaggedRecords.Proofs.DocumentFields
import TaggedRecords.Proofs.DocumentRanking
import TaggedRecords.Proofs.EligibleRuns
import TaggedRecords.Proofs.FailedOperations
import TaggedRecords.Proofs.FaithfulCache
import TaggedRecords.Proofs.FilterMeanings
import TaggedRecords.Proofs.IndependentFields
import TaggedRecords.Proofs.IntegerFilters
import TaggedRecords.Proofs.InterleavedUpdates
import TaggedRecords.Proofs.KeyPaths
import TaggedRecords.Proofs.LegalDocuments
import TaggedRecords.Proofs.LegalValues
import TaggedRecords.Proofs.Likeness
import TaggedRecords.Proofs.MergePaths
import TaggedRecords.Proofs.OwnSnapshots
import TaggedRecords.Proofs.PaddedTags
import TaggedRecords.Proofs.PartRuns
import TaggedRecords.Proofs.PartitionedTags
import TaggedRecords.Proofs.PatternMatching
import TaggedRecords.Proofs.Positions
import TaggedRecords.Proofs.ReachableStores
import TaggedRecords.Proofs.RecordParts
import TaggedRecords.Proofs.Registrations
import TaggedRecords.Proofs.RoundedIntegers
import TaggedRecords.Proofs.Rounding
import TaggedRecords.Proofs.RuleReferences
import TaggedRecords.Proofs.RunMarks
import TaggedRecords.Proofs.Selection
import TaggedRecords.Proofs.SettledContent
import TaggedRecords.Proofs.SharedShapes
import TaggedRecords.Proofs.ShownFields
import TaggedRecords.Proofs.SilencedRuns
import TaggedRecords.Proofs.SinglePrecision
import TaggedRecords.Proofs.SkippedFields
import TaggedRecords.Proofs.SkippedPaths
import TaggedRecords.Proofs.SortedDocuments
import TaggedRecords.Proofs.SpecialisedRuns
import TaggedRecords.Proofs.SpecialisedTags
import TaggedRecords.Proofs.Stripping
import TaggedRecords.Proofs.TagText
import TaggedRecords.Proofs.TokenChains
import TaggedRecords.Proofs.TombstoneRuns
import TaggedRecords.Proofs.Tombstones
import TaggedRecords.Proofs.UnsupportedParts
import TaggedRecords.Proofs.UntouchedData
import TaggedRecords.Proofs.ValueRanking
import TaggedRecords.Proofs.VisitRuns
import TaggedRecords.Proofs.Visits
import TaggedRecords.Proofs.WalkParts
import TaggedRecords.Proofs.WritePlaces
import TaggedRecords.Proofs.WritingRuns
import TaggedRecords.Proofs.WrittenTags
import TaggedRecords.Proofs.WrittenValues
import TaggedRecords.Row
import TaggedRecords.Proofs.MailDomains
