import Pincaster.SlabStore
import Pincaster.Lib.Runs
import Pincaster.QueryCodec
import Pincaster.SlipMapRuns
import Pincaster.CQueue
import Pincaster.DbLog
import Pincaster.DomainRecords
import Pincaster.DomainLayers
import Pincaster.DomainSearch
import Pincaster.DomainSystem
import Pincaster.HttpServer
import Pincaster.JournalComplete
import Pincaster.Store
import Pincaster.StoreLaws
import Pincaster.EffectOrder
import Pincaster.Expiration
import Pincaster.Compaction
import Pincaster.PanDb
import Pincaster.PanDbSlots
import Pincaster.PanDbRuns
import Pincaster.TornWrite
import Pincaster.ReplicationSlave
import Pincaster.ReplicationRuns
import Pincaster.RewriteFailures
import Pincaster.Lib.Binds
import Pincaster.PutStored
import Pincaster.Lib.RbTree
import Pincaster.NameAssertion
import Pincaster.PntStack
import Pincaster.KeyNodes
import Pincaster.KeySearch
import Pincaster.LinkTraversal
import Pincaster.LinkReach
import Pincaster.LinkLaw
import Pincaster.SearchWrap
import Pincaster.SearchClusters
import Pincaster.KeyLaw
import Pincaster.Answers
import Pincaster.PropertyMaps
import Pincaster.DumpRestored
import Pincaster.JournalBuffer
import Pincaster.Workers
import Pincaster.ShortReads
import Pincaster.LimitedReads
import Pincaster.SlipMapFailures
import Pincaster.FormParsing
import Pincaster.AddInt
import Pincaster.FlatDistance
import Pincaster.CornerOrder
import Pincaster.BucketCapacity
import Pincaster.BodyAssertions
import Pincaster.LayerUris
import Pincaster.CQueueBytes
import Pincaster.PntStackBytes
import Pincaster.InitialSync
import Pincaster.SearchDepth
import Pincaster.CrowdedTree
import Pincaster.RectScan
import Pincaster.ExpirableIndex
import Pincaster.LayerRecords
import Pincaster.LayerPurge
import Pincaster.StoreRecords
import Pincaster.StoreRuns
import Pincaster.PutFrame
import Pincaster.Lib.Simulation
import Pincaster.StoreRefine
import Pincaster.SearchCallbacks
import Pincaster.LayerTrees
import Pincaster.ShownRecords
import Pincaster.StoreReads
import Pincaster.SearchRoom
import Pincaster.SearchReplies
import Pincaster.QueuedOps
import Pincaster.ServerRuns
import Pincaster.LayerMemory
import Pincaster.TreeFree
import Pincaster.Public
import Pincaster.ReplyPipe
import Pincaster.HttpAnswers
