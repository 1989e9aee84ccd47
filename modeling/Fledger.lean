import Fledger.Lib.Bytes
import Fledger.Lib.MsgPack
import Fledger.Arch.Nodeids
import Fledger.Lib.Loop
import Fledger.Arch.Framing
import Fledger.Crypto.Signer
import Fledger.DhtRouter.Depth
import Fledger.Lib.HashMap
import Fledger.Lib.Threshold
import Fledger.Crypto.Access
import Fledger.Crypto.Satisfies
import Fledger.Flo.Flo
import Fledger.Flo.Verify
import Fledger.Crypto.Concrete
import Fledger.Flo.Soundness
import Fledger.Crypto.Signing
import Fledger.Flo.Completeness
import Fledger.Flo.Genesis
import Fledger.Lib.Trim
import Fledger.DhtStorage.Core
import Fledger.DhtStorage.Accounting
import Fledger.DhtStorage.Eviction
import Fledger.DhtStorage.Upsert
import Fledger.DhtStorage.Bound
import Fledger.DhtStorage.Report
import Fledger.DhtStorage.Rotation
import Fledger.DhtStorage.Ownership
import Fledger.DhtRouter.Broker
import Fledger.DhtStorage.Messages
import Fledger.DhtStorage.Realms
import Fledger.DhtStorage.Announce
import Fledger.DhtStorage.Growth
import Fledger.DhtStorage.Sync
import Fledger.DhtRouter.Buckets
import Fledger.DhtRouter.Table
import Fledger.Lib.BiMap
import Fledger.Network.Nodeconfig
import Fledger.Network.Signal
import Fledger.Network.Handlers
import Fledger.Network.Challenge
import Fledger.DhtRouter.Messages
import Fledger.DhtRouter.Routing
import Fledger.DhtStorage.Checked
import Fledger.DhtStorage.Refusal
import Fledger.DhtStorage.Cuckoos
import Fledger.DhtStorage.Durability
import Fledger.DhtStorage.Agreement
import Fledger.DhtRouter.Delivery
import Fledger.Network.Survival
import Fledger.Crypto.Binding
import Fledger.Flo.Integrity
import Fledger.Network.WebSocketServer
import Fledger.Arch.Settle
import Fledger.Arch.Forwarding
import Fledger.Arch.Packets
import Fledger.Arch.NodeConnection
import Fledger.Network.Broker
import Fledger.Network.Connections
import Fledger.Network.Router
import Fledger.GossipEvents.Network
import Fledger.GossipEvents.Convergence
import Fledger.Flo.Updates
import Fledger.Flo.Platform
import Fledger.Network.Registry
import Fledger.Network.Relay
import Fledger.DhtRouter.Silence
import Fledger.DhtStorage.Config
import Fledger.DhtStorage.Anchored
import Fledger.DhtStorage.Convergence
import Fledger.DhtRouter.Balance
import Fledger.DhtRouter.Blacklist
import Fledger.DhtRouter.InFlight
import Fledger.Arch.Looped
import Fledger.Ping.Traffic
import Fledger.RandomConnections.Messages
import Fledger.WebProxy.Messages
import Fledger.WebProxy.Transfer
import Fledger.Hermes.Workers
import Fledger.Crypto.Evaluation
import Fledger.Crypto.Panics
import Fledger.Flo.Totality
import Fledger.Crypto.Prediction
import Fledger.Crypto.Resolution
import Fledger.DhtStorage.Convert
import Fledger.DhtRouter.Removal
import Fledger.DhtRouter.Arrival
import Fledger.DhtRouter.Splitting
import Fledger.Arch.Sizes
import Fledger.Arch.FromStr
import Fledger.RandomConnections.Nodes
import Fledger.Flo.Hashing
import Fledger.DhtStorage.Paths
import Fledger.DhtStorage.Family
import Fledger.Lib.Cluster
import Fledger.DhtRouter.Cargo
import Fledger.DhtRouter.Closest
import Fledger.DhtStorage.Genuine
import Fledger.Dht.Nodes
import Fledger.Dht.Provenance
import Fledger.Dht.Lookup
import Fledger.Dht.Sync
import Fledger.Hermes.Experiment
import Fledger.Hermes.Simulation
import Fledger.Hermes.Clients
import Fledger.Hermes.Accuracy
import Fledger.Hermes.Propagation
import Fledger.Arch.Transport
import Fledger.GossipEvents.Saved
import Fledger.GossipEvents.Rounds
import Fledger.GossipEvents.Provenance
