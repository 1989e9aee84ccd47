import Fledger.Lib.BiMap
import Fledger.Lib.HashMap
import Fledger.Flo.Realm
import Fledger.Network.Nodeconfig

inductive PeerMessage
  | init
  | offer (sdp : String)
  | answer (sdp : String)
  | iceCandidate (candidate : String)
deriving DecidableEq

structure PeerInfo where
  idInit   : NodeID
  idFollow : NodeID
  message  : PeerMessage
deriving DecidableEq

def PeerInfo.getRemote (pi : PeerInfo) (local_ : NodeID) : Option NodeID :=
  if pi.idInit = local_ then some pi.idFollow
  else if pi.idFollow = local_ then some pi.idInit
  else none

inductive WSServerOut
  | message (index : Nat) (msg : String)
  | newConnection (index : Nat)
  | disconnection (index : Nat)
  | stopped
deriving DecidableEq

inductive WSServerIn
  | message (index : Nat) (msg : String)
  | close (index : Nat)
  | stop
deriving DecidableEq

structure FledgerConfig where
  systemRealm : Option RealmID

structure SignalConfig where
  ttlMinutes  : UInt16
  systemRealm : Option RealmID
  maxListLen  : Option Nat

structure NodeStat where
  id      : NodeID
  version : String
  pingMs  : UInt32
  pingRx  : UInt32
deriving DecidableEq

inductive SignalIn
  | timer
  | wsServer (msg : WSServerOut)
  | stop
deriving DecidableEq

inductive SignalOut
  | nodeStats (stats : List NodeStat)
  | newNode (id : NodeID)
  | wsServer (msg : WSServerIn)
  | stopped
deriving DecidableEq

inductive WSSignalMessageToNode
  | challenge (version : UInt64) (challenge : U256)
  | listIdsReply (infos : List NodeInfo)
  | peerSetup (pi : PeerInfo)
  | systemConfig (config : FledgerConfig)

-- The node info is of the type `N`, as it is read in several versions.
structure MessageAnnounce (N : Type) where
  version   : UInt64
  challenge : U256
  nodeInfo  : N
  signature : Bytes

inductive WSSignalMessageFromNode (N : Type)
  | announce (ann : MessageAnnounce N)
  | listIdsRequest
  | peerSetup (pi : PeerInfo)
  | nodeStats (stats : List NodeStat)

-- `serde_json`. The reader converts a node info as soon as it has come across it, also if it fails
-- on the rest of the text.
class SignalJson where
  toString : WSSignalMessageToNode → Option String
  fromStr  : String → Option (WSSignalMessageFromNode NodeInfoVersion)
  met      : String → Option NodeInfoVersion

namespace WSSignalMessageFromNode

def convert : WSSignalMessageFromNode NodeInfoVersion → Option (WSSignalMessageFromNode NodeInfo)
  | .announce ann    => do
    let nodeInfo ← NodeInfo.fromVersion ann.nodeInfo
    return .announce { ann with nodeInfo }
  | .listIdsRequest  => some .listIdsRequest
  | .peerSetup pi    => some (.peerSetup pi)
  | .nodeStats stats => some (.nodeStats stats)

-- `serde_json::from_str`, which panics if a conversion does.
def fromJson [SignalJson] (text : String) : Option (Option (WSSignalMessageFromNode NodeInfo)) := do
  let _ ← (SignalJson.met text).mapM NodeInfo.fromVersion
  (SignalJson.fromStr text).mapM convert

end WSSignalMessageFromNode

def signalVersion : UInt64 :=
  3

-- What a handler asks for: a random id, and some values of a list, given a seed and their number.
structure SignalEnv where
  rnd            : U256
  chooseMultiple : Nat → List NodeInfo → Nat → List NodeInfo

structure SignalServer where
  connectionIds : BiMap U256 Nat
  info          : HashMap U256 NodeInfo
  ttl           : HashMap Nat UInt16
  config        : SignalConfig

namespace SignalServer

def new (config : SignalConfig) : SignalServer :=
  { connectionIds := .empty, info := ∅, ttl := ∅, config }

variable [SignalJson] [Ed25519Compact]

def removeNode (s : SignalServer) (index : Nat) : SignalServer :=
  let info := match s.connectionIds.getByRight index with
    | some id => s.info.erase id
    | none    => s.info
  { s with
    connectionIds := s.connectionIds.removeByRight index
    info
    ttl           := s.ttl.erase index
  }

-- The difference panics if a connection has no time left.
def msgInTimer (s : SignalServer) : Option SignalServer :=
  if s.ttl.values.contains 0 then none
  else
    let ttl := s.ttl.keys.foldl (fun ttl index => HashMap.modify ttl index (· - 1)) s.ttl
    let toRemove := (ttl.pairs.filter (·.2 = 0)).map Prod.fst
    some (toRemove.foldl removeNode { s with ttl })

def sendMsgNode (index : Nat) (msg : WSSignalMessageToNode) : Option (List SignalOut) := do
  let text ← SignalJson.toString msg
  return [.wsServer (.message index text)]

def msgWsConnect (env : SignalEnv) (s : SignalServer) (index : Nat) :
    Option (SignalServer × List SignalOut) := do
  let out ← sendMsgNode index (.challenge signalVersion env.rnd)
  return (
    { s with
      connectionIds := s.connectionIds.insert env.rnd index
      ttl           := s.ttl.insert index s.config.ttlMinutes },
    out
  )

def wsAnnounce (s : SignalServer) (index : Nat) (msg : MessageAnnounce NodeInfo) :
    Option (SignalServer × List SignalOut) :=
  match s.connectionIds.getByRight index with
  | none           => some (s, [])
  | some challenge => do
    if !(← msg.nodeInfo.verify challenge.bytes msg.signature) then return (s, [])
    let id ← msg.nodeInfo.getId
    let msgs ← sendMsgNode index (.systemConfig { systemRealm := s.config.systemRealm })
    return (
      { s with
        connectionIds := s.connectionIds.insert id index
        info          := s.info.insert id msg.nodeInfo },
      msgs ++ [.newNode id]
    )

def wsListIds (env : SignalEnv) (s : SignalServer) (id : Nat) : Option (List SignalOut) :=
  let infos := HashMap.values s.info
  let maxSize := s.config.maxListLen.getD infos.length
  sendMsgNode id (.listIdsReply (env.chooseMultiple id infos maxSize))

def wsPeerSetup (s : SignalServer) (index : Nat) (pi : PeerInfo) : Option (List SignalOut) :=
  match s.connectionIds.getByRight index with
  | none    => some []
  | some id =>
    match (pi.getRemote id).bind s.connectionIds.getByLeft with
    | some dstIndex => sendMsgNode dstIndex (.peerSetup pi)
    | none          => some []

def msgWsProcess (env : SignalEnv) (s : SignalServer) (index : Nat) :
    WSSignalMessageFromNode NodeInfo → Option (SignalServer × List SignalOut)
  | .announce ann    => s.wsAnnounce index ann
  | .listIdsRequest  => (s.wsListIds env index).map (s, ·)
  | .peerSetup pi    => (s.wsPeerSetup index pi).map (s, ·)
  | .nodeStats stats => some (s, [.nodeStats stats])

def msgWss (env : SignalEnv) (s : SignalServer) :
    WSServerOut → Option (SignalServer × List SignalOut)
  | .message index text  => do
    let s := { s with ttl := HashMap.modify s.ttl index fun _ => s.config.ttlMinutes }
    match ← WSSignalMessageFromNode.fromJson text with
    | some msg => s.msgWsProcess env index msg
    | none     => return (s, [])
  | .newConnection index => s.msgWsConnect env index
  | .disconnection id    => some (s.removeNode id, [])
  | .stopped             => some (s, [.stopped])

def msgIn (env : SignalEnv) (s : SignalServer) : SignalIn → Option (SignalServer × List SignalOut)
  | .timer        => s.msgInTimer.map (·, [])
  | .wsServer msg => s.msgWss env msg
  | .stop         => some (s, [.wsServer .stop])

end SignalServer
