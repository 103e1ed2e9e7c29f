import Kademlia.Lib.Binary64
import Kademlia.Lib.Run
import Kademlia.Lib.Exchange
import Kademlia.Lib.Loop
import Kademlia.Lib.Scan
import Kademlia.Lib.Slots
import Kademlia.Lib.Simulation
import Kademlia.Lib.ExpiringMap
import Kademlia.Lib.BigEndian
import Kademlia.Lib.Bits
import Kademlia.Lib.Codec
import Kademlia.Lib.WindowCounter
import Kademlia.Lib.Nearest
import Kademlia.Lib.Recency
import Kademlia.NodeId
import Kademlia.NodeId.Metric
import Kademlia.NodeId.Prefix
import Kademlia.NodeId.RandomInBucket
import Kademlia.Node
import Kademlia.Routing.KBucket
import Kademlia.Routing.Reliability
import Kademlia.Protocol.Timeout
import Kademlia.Routing.RoutingTable
import Kademlia.Routing.Closest
import Kademlia.Routing.Step
import Kademlia.Routing.Placement
import Kademlia.Routing.Admission
import Kademlia.Routing.Faults
import Kademlia.Routing.Split
import Kademlia.Routing.Uniqueness
import Kademlia.Routing.Removal
import Kademlia.Routing.Capacity
import Kademlia.Routing.Eviction
import Kademlia.Routing.Reputation
import Kademlia.Storage.Memory
import Kademlia.Storage.Expiry
import Kademlia.Storage.Collection
import Kademlia.Storage.Dual
import Kademlia.Storage.Handle
import Kademlia.Storage.Deadline
import Kademlia.Storage.Constructors
import Kademlia.Network.RateLimit
import Kademlia.Network.Refresh
import Kademlia.Network.Republish
import Kademlia.Network.Maintenance
import Kademlia.Protocol.Message
import Kademlia.Network.Transport
import Kademlia.Network.Delivery
import Kademlia.Network.OpenTransport
import Kademlia.Network.Registry
import Kademlia.Network.Frame
import Kademlia.Network.FrameLanguage
import Kademlia.Network.Bincode
import Kademlia.Network.Outgoing
import Kademlia.Protocol.Rpc
import Kademlia.Protocol.Accounting
import Kademlia.Protocol.PendingEntries
import Kademlia.Protocol.PendingRequests
import Kademlia.Protocol.RecordContact
import Kademlia.Protocol.SenderStats
import Kademlia.Protocol.HandleRequest
import Kademlia.Protocol.ReadYourWrites
import Kademlia.Protocol.Replacement
import Kademlia.Protocol.Provenance
import Kademlia.Protocol.FindValue
import Kademlia.Protocol.FindNode
import Kademlia.Protocol.FailedQueries
import Kademlia.Protocol.AnswerOrder
import Kademlia.Protocol.SearchEnd
import Kademlia.Protocol.SearchBound
import Kademlia.Protocol.Convergence
import Kademlia.Protocol.Queries
import Kademlia.Protocol.FoundNodes
import Kademlia.Network.Client
import Kademlia.Network.Distribution
import Kademlia.Network.Incoming
import Kademlia.Network.Join
import Kademlia.Protocol.NewContact
import Kademlia.Protocol.Replication
import Kademlia.Protocol.FailedCheck
import Kademlia.Protocol.HealthCheck
import Kademlia.Protocol.HealthChain
import Kademlia.System.Peer
import Kademlia.System.Trust
import Kademlia.System.Calls
import Kademlia.System.Sound
import Kademlia.System.Integrity
import Kademlia.System.Traffic
import Kademlia.System.Wire
