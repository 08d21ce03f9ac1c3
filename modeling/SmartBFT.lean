import SmartBFT.Quorum
import SmartBFT.RequestPool.Close
import SmartBFT.RequestPool.SizeBytes
import SmartBFT.RequestPool.Removed
import SmartBFT.RequestPool.TimerChains
import SmartBFT.HeartbeatMonitor.Cluster
import SmartBFT.RequestPool.Reconfig
import SmartBFT.PartitionedProcessor.Rounds
import SmartBFT.StateCollector
import SmartBFT.ViewChanger.InFlightOrder
import SmartBFT.Blacklist.Decided
import SmartBFT.Node.Acceptance
import SmartBFT.Node.Restore
import SmartBFT.Node.NewViewLoop
import SmartBFT.Node.LeaderToken
import SmartBFT.Node.RestoredPhase
import SmartBFT.Node.SyncCount
import SmartBFT.Node.SelfConsistent
import SmartBFT.Replica
import SmartBFT.Cluster.Agreement
import SmartBFT.Cluster.Help
import SmartBFT.Cluster.LeaderMessages
import SmartBFT.Wal.Saved
import SmartBFT.Wal.Repair
import SmartBFT.Wal.Failures
