import NanoDB.Lib.Execution
import NanoDB.Raft.Log
import NanoDB.Raft.Node
import NanoDB.Raft.Cluster
import NanoDB.Raft.Election
import NanoDB.Raft.LogMatching
import NanoDB.Raft.Acknowledgement
import NanoDB.Raft.Ballot
import NanoDB.Lib.OrderStatistic
import NanoDB.Raft.CommitRule
import NanoDB.Raft.CommitSafety
import NanoDB.Cluster.HashRing
import NanoDB.Coordinator.Topology
import NanoDB.Coordinator.ApplyLoop
import NanoDB.Coordinator.Convergence
import NanoDB.Coordinator.Restart
import NanoDB.Shard.Service
import NanoDB.Coordinator.QuorumWrite
import NanoDB.Coordinator.EpochFencing
import NanoDB.Coordinator.Failover
import NanoDB.Coordinator.Migration
import NanoDB.Coordinator.KeyMove
import NanoDB.Coordinator.Rebalance
import NanoDB.Coordinator.RebalanceRun
import NanoDB.Coordinator.RebalanceInvariant
import NanoDB.Coordinator.CommandText
import NanoDB.Coordinator.ConcurrentRebalance
import NanoDB.Coordinator.Search
import NanoDB.Coordinator.StaleCopies
import NanoDB.Lib.Codec
import NanoDB.Lib.Worklist
import NanoDB.Lib.BinaryHeap
import NanoDB.Raft.StateFile
import NanoDB.Raft.LogFile
import NanoDB.Raft.LogRefinement
import NanoDB.Storage.Metadata
import NanoDB.Coordinator.AdminRequests
import NanoDB.Coordinator.Primaries
import NanoDB.Coordinator.LastShard
import NanoDB.Index.Hnsw
import NanoDB.Index.SearchLayer
import NanoDB.Index.Links
import NanoDB.Index.Connectivity
import NanoDB.Index.Update
import NanoDB.Shard.Refinement
import NanoDB.Lib.TopK
import NanoDB.Coordinator.TopK
import NanoDB.Cluster.IdMapStore
import NanoDB.Cluster.TornWrite
import NanoDB.Shard.EpochRace
import NanoDB.Shard.Crash
import NanoDB.Lib.FileSystem
import NanoDB.Coordinator.ConfigFile
import NanoDB.Coordinator.ConfigRace
import NanoDB.Raft.Conflict
import NanoDB.Raft.Indices
import NanoDB.Raft.Applied
import NanoDB.Raft.InstallSnapshot
import NanoDB.Raft.FailedPersist
import NanoDB.Raft.Leadership
import NanoDB.Raft.Server
import NanoDB.Raft.SentEntries
import NanoDB.Raft.CatchUp
import NanoDB.Raft.Progress
import NanoDB.Lib.Simulation
import NanoDB.Raft.WholeLogs
import NanoDB.Raft.Shadow
import NanoDB.Raft.Compaction
import NanoDB.Raft.Proposals
import NanoDB.Raft.CommittedLog
import NanoDB.Raft.Linearization
import NanoDB.Coordinator.ReplicatedTopology
import NanoDB.Coordinator.CommittedRequests
import NanoDB.Coordinator.HealthCheck
import NanoDB.Coordinator.Completeness
import NanoDB.Index.Layers
import NanoDB.Index.Growth
import NanoDB.Index.BestSeen
import NanoDB.Index.Session
import NanoDB.Index.Count
import NanoDB.Index.Answers
import NanoDB.Lib.StridedLoop
import NanoDB.Lib.Scan
import NanoDB.Lib.CriticalSection
import NanoDB.Index.Distance
import NanoDB.Index.GreedyDescent
import NanoDB.Index.Selection
import NanoDB.Index.FullList
import NanoDB.Index.ConcurrentLinks
import NanoDB.Index.Congruence
import NanoDB.Index.NeighborLists
import NanoDB.Index.LastMetadata
import NanoDB.Index.Header
import NanoDB.Index.FailedResize
