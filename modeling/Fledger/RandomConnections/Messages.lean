import Fledger.DhtRouter.Broker
import Fledger.Lib.Traverse
import Fledger.RandomConnections.Core

namespace RandomConnections

inductive ModuleMessage
  | module (msg : NetworkWrapper)
  | dropConnection
deriving DecidableEq

inductive RandomIn
  | nodeList (nodes : List NodeInfo)
  | nodeFailure (node : NodeID)
  | nodeConnected (node : NodeID)
  | nodeDisconnected (node : NodeID)
  | nodeCommFromNetwork (id : NodeID) (msg : ModuleMessage)
  | networkWrapperToNetwork (dst : NodeID) (msg : NetworkWrapper)
  | tick
deriving DecidableEq

inductive RandomOut
  | connectNode (node : NodeID)
  | disconnectNode (node : NodeID)
  | nodeIDsConnected (nodes : List NodeID)
  | nodeInfosConnected (infos : List NodeInfo)
  | nodeCommToNetwork (dst : NodeID) (msg : ModuleMessage)
  | networkWrapperFromNetwork (id : NodeID) (msg : NetworkWrapper)
deriving DecidableEq

structure Config where
  fillConnected : UInt32

def Config.default : Config where
  fillConnected := 10

structure Messages where
  cfg     : Config
  storage : RandomStorage
  fill    : UInt32

namespace Messages

def new : Messages where
  cfg     := .default
  storage := .new
  fill    := 0

def connectedMsg (m : Messages) : Option (List RandomOut) := do
  let infos ← m.storage.getConnectedInfo
  some [.nodeIDsConnected m.storage.connected.getNodes, .nodeInfosConnected infos]

def disconnectMsg (m : Messages) (dst : NodeID) : Option (List RandomOut) := do
  let out ← m.connectedMsg
  some (out ++ [.disconnectNode dst])

def chooseNew (m : Messages) (c : Choose) (n : Nat) : Messages × List RandomOut :=
  let (storage, nodes) := m.storage.chooseNew c n
  ({ m with storage }, nodes.map .connectNode)

variable [LnCeil]

def newConnection (m : Messages) (c : Choose) : Messages × List RandomOut :=
  let (storage, nodes) := m.storage.fillUp c
  ({ m with storage }, nodes.map .connectNode)

def fillConnection (m : Messages) (c : Choose) : Messages × List RandomOut :=
  let fill := m.fill + 1
  if fill ≥ m.cfg.fillConnected then
    let m := { m with fill := 0 }
    if m.storage.totalLen < m.storage.nodesNeeded then m.chooseNew c 1 else (m, [])
  else ({ m with fill }, [])

def networkMsg (m : Messages) (c : Choose) (id : NodeID) :
    ModuleMessage → Messages × List RandomOut
  | .module msg     =>
    ({ m with storage := m.storage.connect [id] }, [.networkWrapperFromNetwork id msg])
  | .dropConnection =>
    let m        := { m with storage := m.storage.disconnect [id] }
    let (m, out) := m.newConnection c
    (m, .disconnectNode id :: out)

-- A malformed key makes it panic.
def processMessage (m : Messages) (c : Choose) : RandomIn → Option (Messages × List RandomOut)
  | .nodeList nodes                  => do
    let storage ← m.storage.newInfos nodes
    some <| newConnection { m with storage } c
  | .nodeConnected node              => do
    let m := { m with storage := m.storage.connect [node] }
    some (m, ← m.connectedMsg)
  | .nodeDisconnected node           => do
    let m        := { m with storage := m.storage.disconnect [node] }
    let (m, out) := m.newConnection c
    some (m, out ++ (← m.connectedMsg))
  | .nodeFailure node                => do
    let m        := { m with storage := m.storage.failure [node] }
    let (m, out) := m.newConnection c
    some (m, out ++ (← m.disconnectMsg node))
  | .tick                            => do
    let m         := { m with storage := m.storage.tick }
    let (m, out)  := m.newConnection c
    let (m, out') := m.fillConnection c
    some (m, out ++ out' ++ (← m.connectedMsg))
  | .nodeCommFromNetwork id msg      => some <| m.networkMsg c id msg
  | .networkWrapperToNetwork dst msg =>
    if m.storage.connected.contains dst then some (m, [.nodeCommToNetwork dst (.module msg)])
    else do
      let m := { m with storage := m.storage.disconnect [dst] }
      some (m, ← m.connectedMsg)

end Messages

-- None of the new ids of a list of nodes is in it twice.
def NewOnce (s : RandomStorage) : RandomIn → Prop
  | .nodeList nodes => ((nodes.filterMap NodeInfo.getId).filter (· ∉ s.known)).Nodup
  | _               => True

-- All runs, with the random choices, the states before the messages, and the messages (the last one
-- first).
inductive Runs [LnCeil] : List (Messages × RandomIn) → Messages → Prop
  | start : Runs [] .new
  | step {history m c msg m' out} :
    Runs history m → m.processMessage c msg = some (m', out) → Runs ((m, msg) :: history) m'

section Partition

variable [LnCeil] {m m' : Messages} {c : Choose} {msg : RandomIn} {out : List RandomOut}
  {history : List (Messages × RandomIn)}

namespace Messages

theorem partition_newConnection (h : m.storage.Partition) :
    (m.newConnection c).1.storage.Partition :=
  h.chooseNew c _

theorem partition_fillConnection (h : m.storage.Partition) :
    (m.fillConnection c).1.storage.Partition := by
  rw [fillConnection]
  split
  case isFalse => exact h
  case isTrue  =>
    by_cases hl : m.storage.totalLen < m.storage.nodesNeeded
    case pos =>
      simp only [hl, if_true]
      exact h.chooseNew c 1
    case neg =>
      simp only [hl, if_false]
      exact h

theorem partition_networkMsg (h : m.storage.Partition) (id : NodeID) (msg : ModuleMessage) :
    (m.networkMsg c id msg).1.storage.Partition := by
  cases msg
  case module         => exact h.connect (List.nodup_singleton id)
  case dropConnection => exact h.disconnect.chooseNew c _

omit [LnCeil] in
theorem newInfos_eq_some {s s' : RandomStorage} {nodes : List NodeInfo}
    (h : s.newInfos nodes = some s') :
    s' = { s.newList (nodes.filterMap NodeInfo.getId) with
      infos := (s.infos ++ nodes).eraseDups } := by
  obtain ⟨ids, hi, h⟩ := Option.bind_eq_some_iff.mp h
  cases h
  rw [List.filterMap_of_mapM hi]

-- Only a list of nodes can spoil the partition.
theorem partition_processMessage (h : m.storage.Partition)
    (hp : m.processMessage c msg = some (m', out)) :
    m'.storage.Partition ↔ NewOnce m.storage msg := by
  cases msg
  case nodeList nodes =>
    obtain ⟨s, hs, hp⟩ := Option.bind_eq_some_iff.mp hp
    cases hp
    cases newInfos_eq_some hs
    constructor
    case mp =>
      intro hn
      have hk := hn.known.sublist (RandomStorage.known_chooseNew c _).sublist
      exact (NodeIDs.nodup_merge.mp hk).right
    case mpr => exact fun hn => partition_newConnection (h.newList hn _)
  case nodeConnected node =>
    obtain ⟨out, _, hp⟩ := Option.bind_eq_some_iff.mp hp
    cases hp
    exact iff_of_true (h.connect (List.nodup_singleton node)) trivial
  case nodeDisconnected node =>
    obtain ⟨out, _, hp⟩ := Option.bind_eq_some_iff.mp hp
    cases hp
    exact iff_of_true (partition_newConnection h.disconnect) trivial
  case nodeFailure node =>
    obtain ⟨out, _, hp⟩ := Option.bind_eq_some_iff.mp hp
    cases hp
    exact iff_of_true (partition_newConnection h.disconnect) trivial
  case tick =>
    obtain ⟨out, _, hp⟩ := Option.bind_eq_some_iff.mp hp
    cases hp
    exact iff_of_true (partition_fillConnection (partition_newConnection h.tick)) trivial
  case nodeCommFromNetwork id msg =>
    have hm : (m.networkMsg c id msg).1 = m' := congrArg Prod.fst (Option.some.inj hp)
    exact iff_of_true (hm ▸ partition_networkMsg h id msg) trivial
  case networkWrapperToNetwork dst msg =>
    rw [processMessage] at hp
    split at hp
    case isTrue =>
      cases hp
      exact iff_of_true h trivial
    case isFalse =>
      obtain ⟨out, _, hp⟩ := Option.bind_eq_some_iff.mp hp
      cases hp
      exact iff_of_true h.disconnect trivial

end Messages

open RandomConnections.Messages in
-- The three lists are a partition in all states of a run, if and only if none of the lists of nodes
-- has a new id twice.
theorem Runs.partition_iff (h : Runs history m) :
    (m.storage.Partition ∧ ∀ r ∈ history, r.1.storage.Partition) ↔
      ∀ r ∈ history, NewOnce r.1.storage r.2 := by
  induction h
  case start => simp [Messages.new, RandomStorage.Partition.new]
  case step hr hp hi =>
    rw [List.forall_mem_cons, List.forall_mem_cons, hi.symm]
    constructor
    case mp  => exact fun h => ⟨partition_processMessage h.right.left hp |>.mp h.left, h.right⟩
    case mpr => exact fun h => ⟨partition_processMessage h.right.left hp |>.mpr h.left, h.right⟩

end Partition

section Concrete

def knownInfo : NodeInfo where
  name    := "node"
  client  := "fledger"
  pubkey  := List.replicate 32 7
  modules := Modules.all
  id      := none

-- `(4_f64.ln() * 2.).ceil()` is 3.
abbrev lnCeilFour : LnCeil where
  lnCeil n := if n = 4 then 3 else 2

attribute [local instance] lnCeilFour

def knownNodes : RandomIn :=
  .nodeList (List.replicate 4 knownInfo)

-- The same node is known four times, and it is chosen twice for a connection.
theorem not_partition :
    ∃ m, Runs [(Messages.new, knownNodes)] m ∧ ¬m.storage.known.Nodup ∧
      ¬m.storage.connecting.getNodes.Nodup := by
  have h : Runs [(Messages.new, knownNodes)] _ := .step (c := .take) .start rfl
  exact ⟨_, h, by decide +kernel, by decide +kernel⟩

theorem partition_knownNodes :
    ∃ m, Runs [(Messages.new, knownNodes)] m ∧
      ((m.storage.Partition ∧ ∀ r ∈ [(Messages.new, knownNodes)], r.1.storage.Partition) ↔
        ∀ r ∈ [(Messages.new, knownNodes)], NewOnce r.1.storage r.2) := by
  have h : Runs [(Messages.new, knownNodes)] _ := .step (c := .take) .start rfl
  exact ⟨_, h, h.partition_iff⟩

end Concrete

end RandomConnections
