import Fledger.DhtRouter.Messages
import Fledger.Lib.Cluster

-- The wrapper in which a module sends its message.
def DHTRouterIn.msg : DHTRouterIn → NetworkWrapper
  | messageBroadcast msg | messageNeighbour _ msg | messageClosest _ msg | messageDirect _ msg => msg

-- The modules `dht_router` and `dht_storage` of a node.
structure DHTNode where
  router  : DHTRouter.Messages
  storage : Messages

namespace DHTNode

-- An input of one of the modules, or a start with what the last one has left in the data storage.
inductive Input
  | router (env : DHTRouter.Env) (input : DHTRouter.InternIn)
  | storage (env : Env) (input : InternIn)
  | restart (cfg : Kademlia.Config) (config : DHTConfig)

inductive Output
  | router (out : DHTRouter.InternOut)
  | storage (out : InternOut)

variable [Sha256] [RealmReader] [Yaml (HashMap RealmID RealmStorage)] [Yaml MessageClosest]
  [Yaml MessageNeighbour] [Yaml MessageDest] [Yaml DHTRouter.ModuleMessage]

def handle (id : NodeID) (node : DHTNode) : Input → Option (DHTNode × List Output)
  | .router env input   => do
    let (router, out) ← node.router.message env input
    return ({ node with router }, out.map .router)
  | .storage env input  => do
    let (storage, out) ← node.storage.message env input
    return ({ node with storage }, out.map .storage)
  | .restart cfg config =>
    some ({ router := .new id cfg, storage := .new node.storage.ds config id }, [])

-- The modules are linked to each other, and the router to those of the other nodes.
inductive Carries : NodeID → Output → NodeID → Input → Prop
  | toRouter {id : NodeID} {msg : DHTRouterIn} (env : DHTRouter.Env) :
    Carries id (.storage (.routing msg)) id (.router env (.dhtRouter msg))
  | toStorage {id : NodeID} {msg : DHTRouterOut} (env : Env) :
    Carries id (.router (.dhtRouter msg)) id (.storage env (.routing msg))
  | toNode {id dst : NodeID} {msg : NetworkWrapper} (env : DHTRouter.Env) :
    Carries id (.router (.network (.networkWrapperToNetwork dst msg))) dst
      (.router env (.network (.networkWrapperFromNetwork id msg)))

-- What comes from the timer, from the application, from the network about the other nodes, and the
-- messages of all other modules.
def Outside : Input → Prop
  | .router _ (.dhtRouter msg) => msg.msg.moduleName ≠ dhtStorageName
  | .router _ (.network (.networkWrapperFromNetwork _ msg)) =>
    msg.moduleName ≠ DHTRouter.dhtRouterName
  | .storage _ (.routing _)    => False
  | _                          => True

def network : Cluster NodeID DHTNode Input Output where
  step id node input node' out := node.handle id input = some (node', out)
  carries                      := Carries
  outside _ input              := Outside input

section Handle

variable {id : NodeID} {node : DHTNode}

theorem handle_of_router {env : DHTRouter.Env} {input : DHTRouter.InternIn} {m : DHTRouter.Messages}
    {o : List DHTRouter.InternOut} (h : node.router.message env input = some (m, o)) :
    node.handle id (.router env input) = some ({ node with router := m }, o.map .router) := by
  rw [handle, h]
  rfl

theorem handle_of_storage {env : Env} {input : InternIn} {m : Messages} {o : List InternOut}
    (h : node.storage.message env input = some (m, o)) :
    node.handle id (.storage env input) = some ({ node with storage := m }, o.map .storage) := by
  rw [handle, h]
  rfl

end Handle

end DHTNode
