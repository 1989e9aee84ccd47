import Fledger.DhtRouter.Kademlia
import Fledger.DhtStorage.Messages
import Fledger.Network.Signal

inductive RouterIn
  | networkWrapperToNetwork (dst : NodeID) (msg : NetworkWrapper)

inductive RouterOut
  | nodeInfoAvailable (infos : List NodeInfo)
  | nodeIdsConnected (ids : List NodeID)
  | nodeInfosConnected (infos : List NodeInfo)
  | networkWrapperFromNetwork (from_ : NodeID) (msg : NetworkWrapper)
  | disconnected (id : NodeID)
  | connected (id : NodeID)
  | systemConfig (conf : FledgerConfig)

namespace DHTRouter

inductive ModuleMessage
  | ping
  | pong
  | connectedIdsRequest
  | connectedIdsReply (nodes : List NodeID)
  | neighbour (msg : NetworkWrapper)
  | closest (orig : NodeID) (key : U256) (msg : NetworkWrapper)
  | direct (orig dst : NodeID) (msg : NetworkWrapper)

inductive InternIn
  | dhtRouter (msg : DHTRouterIn)
  | network (msg : RouterOut)
  | tick

inductive InternOut
  | dhtRouter (msg : DHTRouterOut)
  | network (msg : RouterIn)

-- `MODULE_NAME`.
def dhtRouterName : String :=
  "DHTRouter"

def ModuleMessage.wrapperNetwork [Yaml ModuleMessage] (msg : ModuleMessage) (dst : NodeID) :
    Option InternOut :=
  (NetworkWrapper.wrapYaml dhtRouterName msg).map fun w => .network (.networkWrapperToNetwork dst w)

-- What a handler asks for: the global switch, the random choices, and the order in which the
-- counters of a hash map happen to be iterated. The fuel is there for the loops.
structure Env where
  fuel            : Nat
  localBlacklists : Bool
  genBool         : Bool
  genRange        : (n : Nat) → Fin (n + 1)
  order           : (nodes : List NodeID) → { nodes' : List NodeID // nodes'.Perm nodes }

namespace Env

-- `choose`, and `nth` of a random index.
def choose (env : Env) : List NodeID → Option NodeID
  | []            => none
  | node :: nodes => (node :: nodes).get (env.genRange nodes.length)

theorem mem_of_choose {env : Env} {nodes : List NodeID} {node : NodeID}
    (h : env.choose nodes = some node) : node ∈ nodes := by
  cases nodes <;> cases h
  exact List.get_mem ..

theorem choose_eq_none {env : Env} {nodes : List NodeID} : env.choose nodes = none ↔ nodes = [] := by
  cases nodes <;> simp [choose]

end Env

structure Messages where
  core             : Kademlia
  connected        : List NodeID
  requestsInFlight : HashMap U256 NodeID
  blacklistedNodes : List NodeID

namespace Messages

def new (root : NodeID) (cfg : Kademlia.Config) : Messages where
  core             := .new root cfg
  connected        := []
  requestsInFlight := ∅
  blacklistedNodes := []

def addNodes (env : Env) (m : Messages) (nodes : List NodeID) :
    Option (Messages × List InternOut) := do
  let core ← m.core.addNodes env.fuel nodes
  return ({ m with core }, [.dhtRouter (.nodeList core.activeNodes)])

-- A node info without an id and with a key of another length panics.
def addNodeInfos (env : Env) (m : Messages) (infos : List NodeInfo) :
    Option (Messages × List InternOut) := do
  m.addNodes env (← infos.mapM NodeInfo.getId)

def closestOrConnected (m : Messages) (key : U256) (last : Option U256) : List U256 :=
  if m.connected.contains key then [key] else m.core.routeClosest key last

section

variable [Yaml ModuleMessage]

def tick (m : Messages) : Option (Messages × List InternOut) := do
  let (core, pingDelete) ← m.core.tick
  let pings ← pingDelete.ping.mapM ModuleMessage.ping.wrapperNetwork
  let requests ← core.activeNodes.mapM ModuleMessage.connectedIdsRequest.wrapperNetwork
  return ({ m with core }, pings ++ requests)

def newClosest (m : Messages) (key : U256) (msg : NetworkWrapper) : Option (List InternOut) :=
  match (m.closestOrConnected key none).head? with
  | some nextHop => do return [← (ModuleMessage.closest m.core.root key msg).wrapperNetwork nextHop]
  | none         => some []

def newDirect (m : Messages) (dst : NodeID) (msg : NetworkWrapper) : Option (List InternOut) :=
  match (m.closestOrConnected dst none).head? with
  | some nextHop => do return [← (ModuleMessage.direct m.core.root dst msg).wrapperNetwork nextHop]
  | none         => some []

def msgDht (m : Messages) : DHTRouterIn → Option (List InternOut)
  | .messageBroadcast msg     =>
    m.core.activeNodes.mapM (ModuleMessage.neighbour msg).wrapperNetwork
  | .messageClosest key msg   => m.newClosest key msg
  | .messageDirect key msg    => m.newDirect key msg
  | .messageNeighbour dst msg =>
    if m.connected.contains dst then do
      return [← (ModuleMessage.neighbour msg).wrapperNetwork dst]
    else some []

def messageDirect (env : Env) (m : Messages) (orig last dst : NodeID) (msg : NetworkWrapper) :
    Option (List InternOut) :=
  if dst = m.core.root then some [.dhtRouter (.messageDest orig last msg)]
  else
    match env.choose (m.closestOrConnected dst (some last)) with
    | some nextHop => do return [← (ModuleMessage.direct orig dst msg).wrapperNetwork nextHop]
    | none         => some []

end

def getReadfloId [Yaml MessageClosest] (msg : NetworkWrapper) : Option U256 :=
  if msg.moduleName = "DHTStorage" then
    match msg.unwrapYaml MessageClosest "DHTStorage" with
    | some (.readFlo _ requestId) => some requestId
    | _                           => none
  else none

-- The body of the loop of `blacklist_bad_nodes`, for the nodes with more than 10 requests.
def blacklist (env : Env) (m : Messages) (node : NodeID) : Option Messages := do
  let requestIds := (m.requestsInFlight.pairs.filter (·.2 = node)).map Prod.fst
  let core ← m.core.removeNode env.fuel node
  return { m with
    core
    requestsInFlight := requestIds.foldl (fun inFlight id => inFlight.erase id) m.requestsInFlight
    blacklistedNodes := m.blacklistedNodes.insert node
  }

def blacklistBadNodes (env : Env) (m : Messages) : Option Messages :=
  if !env.localBlacklists then some m
  else
    let inFlight := m.requestsInFlight.values
    (env.order inFlight.dedup).1.foldlM
      (fun m node => if inFlight.count node > 10 then m.blacklist env node else some m) m

def randomlyWhitelist (env : Env) (m : Messages) : Option Messages :=
  if !env.localBlacklists then some m
  else if !m.blacklistedNodes.isEmpty && env.genBool then
    match env.choose m.blacklistedNodes with
    | some node => do
      let core ← m.core.addNode env.fuel node
      return { m with core, blacklistedNodes := m.blacklistedNodes.erase node }
    | none      => some m
  else some m

variable [Yaml ModuleMessage] [Yaml MessageClosest]

def messageClosest (env : Env) (m : Messages) (orig lastHop : NodeID) (key : U256)
    (msg : NetworkWrapper) : Option (Messages × List InternOut) := do
  let m ← m.blacklistBadNodes env
  let closest := (m.closestOrConnected key (some lastHop)).head?
  let m ← m.randomlyWhitelist env
  match closest with
  | some nextHop =>
    let requestsInFlight := match getReadfloId msg with
      | some readfloId => m.requestsInFlight.insert readfloId nextHop
      | none           => m.requestsInFlight
    let out ← (ModuleMessage.closest orig key msg).wrapperNetwork nextHop
    return (
      { m with requestsInFlight },
      [out, .dhtRouter (.messageRouting orig lastHop nextHop key msg)]
    )
  | none =>
    if key = m.core.root then return (m, [.dhtRouter (.messageDest orig lastHop msg)])
    else return (m, [.dhtRouter (.messageClosest orig lastHop key msg)])

def processModuleMessage (env : Env) (m : Messages) (from_ : NodeID) :
    ModuleMessage → Option (Messages × List InternOut)
  | .ping                    => do return (m, [← ModuleMessage.pong.wrapperNetwork from_])
  | .pong                    => some (m, [])
  | .closest orig key msg    => m.messageClosest env orig from_ key msg
  | .direct orig dst msg     => do return (m, ← m.messageDirect env orig from_ dst msg)
  | .neighbour msg           => some (m, [.dhtRouter (.messageNeighbour from_ msg)])
  | .connectedIdsRequest     => do
    return (m, [← (ModuleMessage.connectedIdsReply m.core.activeNodes).wrapperNetwork from_])
  | .connectedIdsReply nodes => m.addNodes env nodes

def processNodeMessage (env : Env) (m : Messages) (from_ : NodeID) (msg : NetworkWrapper) :
    Option (Messages × List InternOut) := do
  let (m, out) ← match msg.unwrapYaml ModuleMessage dhtRouterName with
    | some msg => m.processModuleMessage env from_ msg
    | none     => some (m, [])
  let (core, isNew) := m.core.nodeActive from_
  return ({ m with core },
    out ++ if isNew then [.dhtRouter (.nodeList core.activeNodes)] else [])

def msgNetwork (env : Env) (m : Messages) : RouterOut → Option (Messages × List InternOut)
  | .nodeInfoAvailable infos             => m.addNodeInfos env infos
  | .nodeIdsConnected connected          => { m with connected }.addNodes env connected
  | .networkWrapperFromNetwork from_ msg => m.processNodeMessage env from_ msg
  | .systemConfig conf                   =>
    some (m, (conf.systemRealm.map fun rid => .dhtRouter (.systemRealm rid)).toList)
  | .disconnected id                     => do
    let core ← m.core.nodeDisconnected env.fuel id
    return ({ m with core }, [])
  | _                                    => some (m, [])

def message (env : Env) (m : Messages) : InternIn → Option (Messages × List InternOut)
  | .tick          => m.tick
  | .dhtRouter msg => do return (m, ← m.msgDht msg)
  | .network msg   => m.msgNetwork env msg

end Messages

end DHTRouter
