import KvRaft.Api.ExecuteRust
import KvRaft.Api.GatewayWrites
import KvRaft.Api.RoutingLoop
import KvRaft.Api.Submissions
import KvRaft.Lib.BinarySearch
import KvRaft.Lib.Bytes
import KvRaft.Lib.Codec
import KvRaft.Lib.Fold
import KvRaft.Lib.FramedPipe
import KvRaft.Lib.KWayMerge
import KvRaft.Lib.LeaderCompleteness
import KvRaft.Lib.LogInvariant
import KvRaft.Lib.Outcome
import KvRaft.Lib.Ownership
import KvRaft.Lib.Quorum
import KvRaft.Lib.Reader
import KvRaft.Lib.ReplicatedLog
import KvRaft.Lib.SortedRun
import KvRaft.Lsm.Bloom
import KvRaft.Lsm.BloomSpec
import KvRaft.Lsm.Coherence
import KvRaft.Lsm.Compaction
import KvRaft.Lsm.CompactionSpec
import KvRaft.Lsm.Corruption
import KvRaft.Lsm.CrashPoints
import KvRaft.Lsm.Database
import KvRaft.Lsm.DatabaseSpec
import KvRaft.Lsm.Disruptions
import KvRaft.Lsm.FailedWrites
import KvRaft.Lsm.Faults
import KvRaft.Lsm.LevelMerge
import KvRaft.Lsm.Levels
import KvRaft.Lsm.Linearizable
import KvRaft.Lsm.Lookups
import KvRaft.Lsm.LookupsSpec
import KvRaft.Lsm.MapRefinement
import KvRaft.Lsm.MergeLoop
import KvRaft.Lsm.NodeStorage
import KvRaft.Lsm.Progress
import KvRaft.Lsm.Publication
import KvRaft.Lsm.Record
import KvRaft.Lsm.RecordSpec
import KvRaft.Lsm.Refinement
import KvRaft.Lsm.Reopen
import KvRaft.Lsm.Storage
import KvRaft.Lsm.Table
import KvRaft.Lsm.TableFormat
import KvRaft.Lsm.TableIds
import KvRaft.Lsm.TablePanics
import KvRaft.Lsm.TableSpec
import KvRaft.Lsm.Threads
import KvRaft.Lsm.TornWal
import KvRaft.Lsm.WalRuns
import KvRaft.Raft.Acknowledgements
import KvRaft.Raft.Acts
import KvRaft.Raft.AppendLoop
import KvRaft.Raft.Applying
import KvRaft.Raft.BincodeFormat
import KvRaft.Raft.CatchUp
import KvRaft.Raft.Channels
import KvRaft.Raft.Clients
import KvRaft.Raft.Cluster
import KvRaft.Raft.ClusterSim
import KvRaft.Raft.CommitProgress
import KvRaft.Raft.CommitWindow
import KvRaft.Raft.CrashElections
import KvRaft.Raft.DatabaseFaults
import KvRaft.Raft.Durable
import KvRaft.Raft.Election
import KvRaft.Raft.ElectionSim
import KvRaft.Raft.Elections
import KvRaft.Raft.FailedPushes
import KvRaft.Raft.Handle
import KvRaft.Raft.HandlerSim
import KvRaft.Raft.LeaderHints
import KvRaft.Raft.LogFile
import KvRaft.Raft.LogHandle
import KvRaft.Raft.LogMirror
import KvRaft.Raft.LogStore
import KvRaft.Raft.MatchIndex
import KvRaft.Raft.MembershipElections
import KvRaft.Raft.Moves
import KvRaft.Raft.Network
import KvRaft.Raft.NetworkSafety
import KvRaft.Raft.NetworkSim
import KvRaft.Raft.Node
import KvRaft.Raft.Panics
import KvRaft.Raft.Reactions
import KvRaft.Raft.Reads
import KvRaft.Raft.Recovery
import KvRaft.Raft.Replication
import KvRaft.Raft.ReplicationSim
import KvRaft.Raft.Runtime
import KvRaft.Raft.Safety
import KvRaft.Raft.Simulation
import KvRaft.Raft.StaleEntries
import KvRaft.Raft.Timeline
import KvRaft.Raft.TornLog
import KvRaft.Raft.TornMeta
import KvRaft.Raft.Tracking
import KvRaft.Raft.Types
import KvRaft.Raft.Voting
import KvRaft.Raft.Wire
import KvRaft.Raft.WriteOrder
import KvRaft.Sim.Chaos
import KvRaft.Sim.Crashed
import KvRaft.Sim.Delivery
import KvRaft.Sim.Fault
import KvRaft.Sim.Liveness
import KvRaft.Sim.Panics
import KvRaft.Sim.Persistence
import KvRaft.Sim.Reign
import KvRaft.Sim.Safety
import KvRaft.Sim.Simulator
import KvRaft.Sim.Steps
