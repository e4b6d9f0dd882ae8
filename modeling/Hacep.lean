import Hacep.Lib.Lts
import Hacep.Lib.Batching
import Hacep.Lib.HashMap
import Hacep.Lib.Java
import Hacep.Lib.NamedLocks
import Hacep.Lib.Pool
import Hacep.Lib.Wire
import Hacep.Lib.Chunks
import Hacep.Lib.Simulation
import Hacep.Lib.Mailbox
import Hacep.Lib.PrimaryBackup
import Hacep.Lib.Progress
import Hacep.Engine
import Hacep.RulesManager
import Hacep.Recorder
import Hacep.Session.HAKieSession
import Hacep.Session.HAKieSerializedSession
import Hacep.Session.Failure
import Hacep.Session.Delta
import Hacep.Session.Replica
import Hacep.Session.Replay
import Hacep.Session.Threads
import Hacep.Session.Exclusion
import Hacep.Session.VersionTag
import Hacep.Session.Attempt
import Hacep.Session.Handshake
import Hacep.Session.HandshakeEnds
import Hacep.Session.Channels
import Hacep.Session.Externalizer
import Hacep.Session.Transfer
import Hacep.Session.Counter
import Hacep.Session.Chunks
import Hacep.Session.Quiet
import Hacep.Session.StandsFor
import Hacep.Grid.Slot
import Hacep.Grid.Failover
import Hacep.Grid.KieSessionSaver
import Hacep.Grid.InsertThreads
import Hacep.Grid.InsertFailures
import Hacep.Grid.StateTransfer
import Hacep.Grid.Silence
import Hacep.Grid.Replication
import Hacep.Grid.Crash
import Hacep.Grid.LiveOwner
import Hacep.Grid.SingleSession
import Hacep.Cluster.Startup
import Hacep.Cluster.Lifecycle
import Hacep.Cluster.UpdateVersion
import Hacep.Cluster.ReleaseId
import Hacep.Cluster.CoordinateWrites
import Hacep.Cluster.CommandRoutes
import Hacep.Cluster.UpgradeCommands
import Hacep.Cluster.FactKeys
import Hacep.Grid.RemoveSession
import Hacep.Cluster.ConcurrentUpdates
import Hacep.Cluster.Coordinates
import Hacep.Cluster.Ingestion
import Hacep.Cluster.Commands
import Hacep.Cluster.Pipeline
import Hacep.Rules.ConsecutiveDays
