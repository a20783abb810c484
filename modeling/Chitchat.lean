import Chitchat.SortedMap
import Chitchat.NodeState
import Chitchat.Delta
import Chitchat.ClusterState
import Chitchat.ApplyDelta
import Chitchat.Invariants
import Chitchat.StaleQueue
import Chitchat.ComputeDelta
import Chitchat.ScuttleDepth
import Chitchat.GossipRound
import Chitchat.Replication
import Chitchat.Convergence
import Chitchat.Network
import Chitchat.Snapshot
import Chitchat.Delivery
import Chitchat.Freshness
import Chitchat.Stability
import Chitchat.Async
import Chitchat.AsyncCatchUp
