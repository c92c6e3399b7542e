import Ranvier.Types
import Ranvier.Strip
import Ranvier.KeyedList
import Ranvier.RadixBook
import Ranvier.RadixNode
import Ranvier.RadixInsert
import Ranvier.RadixOps
import Ranvier.RadixIds
import Ranvier.RadixTree
import Ranvier.RadixCells
import Ranvier.RadixPointers
import Ranvier.LinkedLists
import Ranvier.RadixLists
import Ranvier.RadixRecency
import Ranvier.RadixPrefix
import Ranvier.RadixTallies
import Ranvier.RadixCompact
import Ranvier.RadixInspect
import Ranvier.PrefixHash
import Ranvier.LastEffect
import Ranvier.NativeKv
import Ranvier.Run
import Ranvier.Shipments
import Ranvier.Gossip
import Ranvier.Bytes
import Ranvier.StreamParser
import Ranvier.ChunkedStream
import Ranvier.ProxyStream
import Ranvier.ProxyOutcome
import Ranvier.RouteScorer
import Ranvier.Backends
import Ranvier.TrustInsert
import Ranvier.Convergence
import Ranvier.KvDecoder
import Ranvier.MsgPack
import Ranvier.KvWire
import Ranvier.KvLedger
import Ranvier.LedgerMirror
import Ranvier.KvSubscriber
import Ranvier.LedgerChains
import Ranvier.SweepReplay
import Ranvier.RouteLearning
import Ranvier.Resubscription
import Ranvier.RouteRemoval
import Ranvier.Announcement
import Ranvier.ContentStream
import Ranvier.Fragments
import Ranvier.StreamCuts
import Ranvier.ChunkedEnd
import Ranvier.PersistentStore
import Ranvier.PersistenceQueue
import Ranvier.Placement
import Ranvier.Routing
import Ranvier.CircuitBreaker
import Ranvier.CircuitRuns
import Ranvier.Dispatch
import Ranvier.ConnectLoop
import Ranvier.Availability
import Ranvier.MissTargets
import Ranvier.ColdBackend
import Ranvier.Broadcast
import Ranvier.Registry
import Ranvier.FlatHashMap
import Ranvier.EndpointSlices
import Ranvier.Discovery
import Ranvier.IdCollisions
import Ranvier.HeldIterators
import Ranvier.ResyncRace
import Ranvier.ResyncFrame
import Ranvier.EventHandling
import Ranvier.SliceMirror
import Ranvier.RouteRestore
import Ranvier.PacketCodec
import Ranvier.DedupWindow
import Ranvier.MapTotal
import Ranvier.PendingAcks
import Ranvier.FailureCounts
import Ranvier.BodyWriter
import Ranvier.Parties
import Ranvier.RequestGauges
import Ranvier.RequestGuards
import Ranvier.ResponseUsage
import Ranvier.Bitmap
import Ranvier.StatePackets
import Ranvier.KeyedMap
import Ranvier.Consensus
import Ranvier.PeerRefresh
import Ranvier.Quorum
import Ranvier.DnsQuorum
import Ranvier.Dtls
import Ranvier.GossipTransport
import Ranvier.PacketHandling
import Ranvier.TransportSends
import Ranvier.SwapQueue
import Ranvier.RequestScheduler
import Ranvier.SchedulerRuns
import Ranvier.ConnectionPool
import Ranvier.PoolRuns
import Ranvier.StreamSummary
import Ranvier.TextValidator
import Ranvier.TokenBuckets
import Ranvier.RateLimiter
import Ranvier.ReverseIndex
import Ranvier.CacheTopology
import Ranvier.MpscRing
import Ranvier.HealthCycle
import Ranvier.JumpHash
import Ranvier.BoundedLoad
import Ranvier.WeightedRoll
import Ranvier.LoadSync
import Ranvier.IndexRebuild
import Ranvier.RouteBatching
import Ranvier.AgentRegistry
import Ranvier.PriorityQueue
import Ranvier.AgentPause
import Ranvier.AgentIdentity
import Ranvier.Trim
import Ranvier.ChatTemplate
import Ranvier.RequestText
import Ranvier.SharedPrefix
import Ranvier.ReferenceTemplate
import Ranvier.DeadBackends
import Ranvier.NodeDrain
import Ranvier.GpuSeconds
import Ranvier.Lockdown
import Ranvier.HotPrefixes
import Ranvier.JsonText
import Ranvier.IntentClassifier
import Ranvier.Base64
import Ranvier.Recency
import Ranvier.TokenizationCache
import Ranvier.LocalDiscovery
import Ranvier.QueueCounter
import Ranvier.Chains
import Ranvier.NodeSlab
import Ranvier.Progress
import Ranvier.TokenizerPool
import Ranvier.TokenizerDrain
import Ranvier.Telemetry
import Ranvier.ChunkedBody
import Ranvier.AlignmentProbe
import Ranvier.AlignmentProber
import Ranvier.PrefixBoundaries
import Ranvier.TokenizerService
