import Fledger.Arch.NodeConnection

inductive WSClientIn
  | message (msg : String)
  | disconnect
  | connect
deriving DecidableEq

inductive WSClientOut
  | message (msg : String)
  | disconnect
  | connected
  | error (msg : String)
deriving DecidableEq

inductive WebRTCConnInput
  | message (dst : NodeID) (msg : NCInput)
  | connect (dst : NodeID) (dir : Direction)
  | disconnect (dst : NodeID)
deriving DecidableEq

inductive WebRTCConnOutput
  | message (id : NodeID) (msg : NCOutput)
deriving DecidableEq

structure WebRTCConn where
  connections : HashMap NodeID NodeConnection := ∅

namespace WebRTCConn

-- What a handler asks for: whether two connections can be spawned, and what these ask for.
structure Env where
  spawned : Bool
  nc      : NodeConnection.Env

-- What a message leads to: the messages to the connections, and what these answer.
structure Sent where
  conn : WebRTCConn
  sent : List (NodeID × NCInput)  := []
  out  : List WebRTCConnOutput    := []

variable [PacketSerde]

-- The connection handles the message at once.
def trySend (env : Env) (c : WebRTCConn) (dst : NodeID) (msg : NCInput) : Sent :=
  match c.connections.lookup dst with
  | none    => { conn := c }
  | some nc =>
    let (nc, out) := nc.message env.nc msg
    { conn := { connections := c.connections.insert dst nc }
      sent := [(dst, msg)]
      out  := out.map (.message dst) }

def ensureConnection (env : Env) (c : WebRTCConn) (id : NodeID) (dir : Direction) : Sent :=
  if id ∈ c.connections then { conn := c }
  else if env.spawned then
    let c : WebRTCConn := { connections := c.connections.insert id {} }
    if dir = .outgoing then c.trySend env id (.setup .outgoing .init) else { conn := c }
  else { conn := c }

def message (env : Env) (c : WebRTCConn) : WebRTCConnInput → Sent
  | .message dst msg => c.trySend env dst msg
  | .disconnect dst  => c.trySend env dst .disconnect
  | .connect dst dir => c.ensureConnection env dst dir

end WebRTCConn

structure ConnStats where
  typeLocal  : ConnType
  typeRemote : ConnType
  signaling  : SignalingState
  rxBytes    : UInt64
  txBytes    : UInt64
  delayMs    : UInt32
deriving DecidableEq

structure NetworkConnectionState where
  id  : NodeID
  dir : Direction
  s   : ConnStats
deriving DecidableEq

inductive NetworkIn
  | messageToNode (id : NodeID) (msg : String)
  | statsToWs (stats : List NodeStat)
  | wsUpdateListRequest
  | connect (id : NodeID)
  | disconnect (id : NodeID)
  | tick
  | webSocket (msg : WSClientOut)
  | webRtc (msg : WebRTCConnOutput)

inductive NetworkOut
  | messageFromNode (id : NodeID) (msg : String)
  | nodeListFromWs (infos : List NodeInfo)
  | connectionState (state : NetworkConnectionState)
  | connected (id : NodeID)
  | disconnected (id : NodeID)
  | webSocket (msg : WSClientIn)
  | webRtc (msg : WebRTCConnInput)
  | systemConfig (config : FledgerConfig)

-- `serde_json`, on the side of a node. To read a node info of the first version panics.
class NetworkJson where
  toString : WSSignalMessageFromNode NodeInfo → String
  fromStr  : String → Option (Option WSSignalMessageToNode)

-- With the id which the info has.
structure NodeConfig where
  info       : NodeInfo
  keypair    : Bytes
  id         : NodeID
  getId_info : info.getId = some id

namespace Network

def updateInterval :=
  10

structure Messages where
  nodeConfig  : NodeConfig
  getUpdate   : Nat         := updateInterval
  connections : List NodeID := []

-- What a handler asks for: a signature by a pair of keys, which panics if these cannot be read.
structure Env where
  sign : Bytes → Bytes → Option Bytes

namespace Messages

def assureConnection (m : Messages) (dst : NodeID) (dir : Direction) :
    Messages × List NetworkOut :=
  if dst ∈ m.connections then (m, [])
  else ({ m with connections := m.connections ++ [dst] }, [.webRtc (.connect dst dir)])

def disconnect (m : Messages) (dst : NodeID) : Messages × List NetworkOut :=
  if dst ∉ m.connections then (m, [.disconnected dst])
  else
    ({ m with connections := m.connections.filter (· ≠ dst) },
      [.disconnected dst, .webRtc (.message dst .disconnect)])

variable [NetworkJson]

def toWs (msg : WSSignalMessageFromNode NodeInfo) : NetworkOut :=
  .webSocket (.message (NetworkJson.toString msg))

-- A challenge of another version panics.
def msgWs (env : Env) (m : Messages) : WSClientOut → Option (Messages × List NetworkOut)
  | .message text => do
    match ← NetworkJson.fromStr text with
    | none                              => return (m, [])
    | some (.challenge version challenge) =>
      if version ≠ signalVersion then none
      let signature ← env.sign m.nodeConfig.keypair challenge.bytes
      let nodeInfo := m.nodeConfig.info
      return (m, [toWs (.announce { version, challenge, nodeInfo, signature }),
        toWs .listIdsRequest])
    | some (.listIdsReply infos)        => return (m, [.nodeListFromWs infos])
    | some (.peerSetup pi)              =>
      match pi.getRemote m.nodeConfig.id with
      | none        => return (m, [])
      | some remote =>
        let (m, out) := m.assureConnection remote .incoming
        let setup := NCInput.setup (pi.getDirection m.nodeConfig.id) pi.message
        return (m, out ++ [.webRtc (.message remote setup)])
    | some (.systemConfig config)       => return (m, [.systemConfig config])
  | .disconnect | .connected | .error _ => some (m, [])

def msgCall (m : Messages) : NetworkIn → Messages × List NetworkOut
  | .messageToNode id msg =>
    let (m, out) := m.assureConnection id .outgoing
    (m, out ++ [.webRtc (.message id (.text msg))])
  | .statsToWs stats      => (m, [toWs (.nodeStats stats)])
  | .wsUpdateListRequest  => (m, [toWs .listIdsRequest])
  | .connect id           => m.assureConnection id .outgoing
  | .disconnect id        => m.disconnect id
  | .tick                 =>
    if m.getUpdate - 1 = 0 then
      ({ m with getUpdate := updateInterval }, [toWs .listIdsRequest])
    else ({ m with getUpdate := m.getUpdate - 1 }, [])
  | .webSocket _          => (m, [])
  | .webRtc _             => (m, [])

def msgNode (m : Messages) (id : NodeID) : NCOutput → List NetworkOut
  | .connected _     => [.connected id]
  | .disconnected _  => [.disconnected id]
  | .text msg        => [.messageFromNode id msg]
  | .state dir state =>
    [.connectionState { id, dir, s := { state with } }]
  | .setup dir pm    =>
    let (idInit, idFollow) :=
      if dir = .incoming then (id, m.nodeConfig.id) else (m.nodeConfig.id, id)
    [toWs (.peerSetup { idInit, idFollow, message := pm })]
  | .incoming _      => []
  | .outgoing _      => []

def message (env : Env) (m : Messages) : NetworkIn → Option (Messages × List NetworkOut)
  | .webSocket ws             => m.msgWs env ws
  | .webRtc (.message id msg) => some (m, m.msgNode id msg)
  | msg                       => some (m.msgCall msg)

end Messages

end Network
