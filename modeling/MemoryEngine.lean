import MemoryEngine.ActivityRuns
import MemoryEngine.ArchivedVectors
import MemoryEngine.BatchPartial
import MemoryEngine.Consolidation
import MemoryEngine.CrashReopen
import MemoryEngine.DbscanClusters
import MemoryEngine.DedupScores
import MemoryEngine.DedupVisibility
import MemoryEngine.DimensionRace
import MemoryEngine.Durability
import MemoryEngine.EmbeddingResponses
import MemoryEngine.FilterSql
import MemoryEngine.FusionTies
import MemoryEngine.ImportRuns
import MemoryEngine.ImportanceRange
import MemoryEngine.IndexSlots
import MemoryEngine.IngestCounts
import MemoryEngine.LinkageClusters
import MemoryEngine.ModelIdentity
import MemoryEngine.Openers
import MemoryEngine.Payloads
import MemoryEngine.PgIdentity
import MemoryEngine.ReadPool
import MemoryEngine.ReconstructAlone
import MemoryEngine.Reranking
import MemoryEngine.ResolveOutcome
import MemoryEngine.RestoredIds
import MemoryEngine.Scheduling
import MemoryEngine.ScopePaths
import MemoryEngine.SearchCut
import MemoryEngine.SessionLines
import MemoryEngine.SessionLinks
import MemoryEngine.SessionPairs
import MemoryEngine.SpaceNames
import MemoryEngine.StaleSummaries
import MemoryEngine.Upcasters
