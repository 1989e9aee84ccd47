import Fledger.Arch.Nodeids
import Fledger.Lib.HashMap

namespace WebProxy

structure ResponseStatus where
  code : UInt16
  msg  : String
deriving DecidableEq

structure ResponseHeader where
  status  : ResponseStatus
  headers : HashMap String (List String)
deriving DecidableEq

inductive ResponseMessage
  | header (header : ResponseHeader)
  | body (body : Bytes)
  | error (err : String)
  | done
deriving DecidableEq

-- The responses which end a request.
def ResponseMessage.Final : ResponseMessage → Prop
  | .error _ | .done    => True
  | .header _ | .body _ => False

structure Counters where
  rxRequests : UInt32
  txRequests : UInt32
  rxPackets  : UInt32
  txPackets  : UInt32
deriving DecidableEq

def Counters.default : Counters where
  rxRequests := 0
  txRequests := 0
  rxPackets  := 0
  txPackets  := 0

structure WebProxyStorage where
  counters : Counters
deriving DecidableEq

def WebProxyStorage.default : WebProxyStorage where
  counters := .default

def WebProxyStorage.receivePacket (s : WebProxyStorage) : WebProxyStorage :=
  { s with counters := { s.counters with rxPackets := s.counters.rxPackets + 1 } }

-- `Tx` are the senders to those who wait for the bodies.
structure WebProxyCore (Tx : Type*) where
  storage   : WebProxyStorage
  nodes     : List NodeID
  ourId     : NodeID
  nodeIndex : Nat
  requests  : HashMap U256 (NodeID × Tx)

-- What comes of a response: the header, if there is one, and what a new task sends to whom.
structure Handled (Tx : Type*) where
  core    : WebProxyCore Tx
  header  : Option ResponseHeader
  spawned : Option (Tx × Bytes)

namespace WebProxyCore

variable {Tx : Type*}

def new (storage : WebProxyStorage) (ourId : NodeID) : WebProxyCore Tx where
  storage   := storage
  nodes     := []
  ourId     := ourId
  nodeIndex := 0
  requests  := ∅

def nodeList (c : WebProxyCore Tx) (nodes : List NodeID) : WebProxyCore Tx :=
  { c with nodes := (NodeIDs.removeMissing nodes [c.ourId]).2 }

def getNode (c : WebProxyCore Tx) : WebProxyCore Tx × Option NodeID :=
  if c.nodes.isEmpty then (c, none)
  else
    let nodeIndex := c.nodeIndex % c.nodes.length
    ({ c with nodeIndex := nodeIndex + 1 }, c.nodes[nodeIndex]?)

def requestGet (c : WebProxyCore Tx) (rnd : U256) (tx : Tx) : WebProxyCore Tx × Option NodeID :=
  match c.getNode with
  | (c, some node) => ({ c with requests := c.requests.insert rnd (node, tx) }, some node)
  | (c, none)      => (c, none)

-- The node of the request is not compared with anything, and an error is only logged.
def handleResponse (c : WebProxyCore Tx) (nonce : U256) (msg : ResponseMessage) : Handled Tx :=
  match c.requests.lookup nonce with
  | some (_, tx) =>
    match msg with
    | .header header =>
      { core := { c with storage := c.storage.receivePacket }, header := header, spawned := none }
    | .body body     =>
      { core    := { c with storage := c.storage.receivePacket }
        header  := none
        spawned := (tx, body) }
    | .done          =>
      { core := { c with requests := c.requests.erase nonce }, header := none, spawned := none }
    | .error _       => { core := c, header := none, spawned := none }
  | none         => { core := c, header := none, spawned := none }

variable {c : WebProxyCore Tx} {nonce rnd : U256} {tx : Tx} {r : ResponseMessage} {node : NodeID}

-- The nodes which are asked are known, and they are others.
theorem mem_nodes_nodeList {nodes : List NodeID} :
    node ∈ (c.nodeList nodes).nodes ↔ node ∈ nodes ∧ node ≠ c.ourId := by
  simp [nodeList, NodeIDs.removeMissing, NodeIDs.remove]

theorem requests_getNode : c.getNode.1.requests = c.requests := by
  rw [getNode]
  split <;> rfl

theorem nodes_getNode : c.getNode.1.nodes = c.nodes ∧ c.getNode.1.ourId = c.ourId := by
  rw [getNode]
  split <;> exact ⟨rfl, rfl⟩

theorem mem_nodes_of_getNode (h : c.getNode.2 = some node) : node ∈ c.nodes := by
  rw [getNode] at h
  split at h
  case isTrue  => cases h
  case isFalse => exact List.mem_of_getElem? h

-- The `unwrap` never panics.
theorem isSome_getNode (h : c.nodes ≠ []) : c.getNode.2.isSome := by
  have hl := List.length_pos_of_ne_nil h
  simp [getNode, h, Nat.mod_lt _ hl]

theorem requestGet_of_some (h : c.getNode.2 = some node) :
    c.requestGet rnd tx =
      ({ c.getNode.1 with requests := c.requests.insert rnd (node, tx) }, some node) := by
  rw [← requests_getNode, requestGet]
  generalize c.getNode = g at h
  cases g
  cases h
  rfl

theorem requestGet_of_none (h : c.getNode.2 = none) :
    c.requestGet rnd tx = (c.getNode.1, none) := by
  rw [requestGet]
  generalize c.getNode = g at h
  cases g
  cases h
  rfl

theorem nodes_requestGet :
    (c.requestGet rnd tx).1.nodes = c.nodes ∧ (c.requestGet rnd tx).1.ourId = c.ourId := by
  cases hg : c.getNode.2
  case none   =>
    rw [requestGet_of_none hg]
    exact nodes_getNode
  case some n =>
    rw [requestGet_of_some hg]
    exact nodes_getNode

theorem nodes_handleResponse :
    (c.handleResponse nonce r).core.nodes = c.nodes ∧
      (c.handleResponse nonce r).core.ourId = c.ourId := by
  rw [handleResponse]
  split
  case h_1 => cases r <;> exact ⟨rfl, rfl⟩
  case h_2 => exact ⟨rfl, rfl⟩

theorem handleResponse_of_none (h : c.requests.lookup nonce = none) :
    c.handleResponse nonce r = { core := c, header := none, spawned := none } := by
  rw [handleResponse, h]

theorem handleResponse_error {err : String} :
    c.handleResponse nonce (.error err) = { core := c, header := none, spawned := none } := by
  rw [handleResponse]
  split <;> rfl

theorem storage_receivePacket_ne (s : WebProxyStorage) : s.receivePacket ≠ s := by
  intro h
  have h := congrArg (·.counters.rxPackets) h
  simp [WebProxyStorage.receivePacket] at h

-- Any other response to a pending request has an effect.
theorem handleResponse_of_some (h : c.requests.lookup nonce = some (node, tx))
    (hr : ∀ err, r ≠ .error err) : (c.handleResponse nonce r).core ≠ c := by
  rw [handleResponse, h]
  cases r
  case header => exact fun hc => storage_receivePacket_ne c.storage (congrArg storage hc)
  case body   => exact fun hc => storage_receivePacket_ne c.storage (congrArg storage hc)
  case error  => exact absurd rfl (hr _)
  case done   =>
    intro hc
    have hc := congrArg (·.requests.lookup nonce) hc
    simp [h] at hc

-- A response never gives a request to another node.
theorem lookup_handleResponse {i : U256} {p : NodeID × Tx}
    (h : (c.handleResponse nonce r).core.requests.lookup i = some p) :
    c.requests.lookup i = some p := by
  rw [handleResponse] at h
  split at h
  case h_2 => exact h
  case h_1 =>
    cases r
    case done =>
      rw [HashMap.lookup_erase_eq] at h
      split at h
      case isTrue  => cases h
      case isFalse => exact h
    all_goals exact h

end WebProxyCore

end WebProxy
