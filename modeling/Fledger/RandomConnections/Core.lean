import Mathlib.Data.List.Perm.Subperm
import Fledger.Network.Nodeconfig

namespace RandomConnections

structure NodeTime where
  id    : NodeID
  ticks : UInt32
deriving DecidableEq

abbrev Nodes := List NodeTime

namespace Nodes

def getNodes (ns : Nodes) : List NodeID :=
  ns.map NodeTime.id

def contains (ns : Nodes) (node : NodeID) : Bool :=
  node ∈ ns.getNodes

def remove (ns : Nodes) (nodes : List NodeID) : Nodes :=
  ns.filter (·.id ∉ nodes)

def addNew (ns : Nodes) (nodes : List NodeID) : Nodes :=
  ns ++ (nodes.filter fun n => !ns.contains n).map fun id => { id, ticks := 0 }

def tick (ns : Nodes) : Nodes :=
  ns.map fun n => { n with ticks := n.ticks + 1 }

end Nodes

-- `choose_multiple`: so many of the elements, at different positions and in any order.
structure Choose where
  choose  : List NodeID → Nat → List NodeID
  subperm : ∀ ids n, (choose ids n).Subperm ids
  length  : ∀ ids n, (choose ids n).length = min n ids.length

-- The first elements are chosen.
def Choose.take : Choose where
  choose ids n  := ids.take n
  subperm ids n := (List.take_sublist n ids).subperm
  length _ _    := List.length_take

-- `((nodes as f64).ln() * 2.).ceil() as usize`.
class LnCeil where
  lnCeil : Nat → Nat

structure RandomStorage where
  connected  : Nodes
  connecting : Nodes
  known      : List NodeID
  infos      : List NodeInfo

namespace RandomStorage

def new : RandomStorage where
  connected  := []
  connecting := []
  known      := []
  infos      := []

def newList (s : RandomStorage) (list : List NodeID) : RandomStorage :=
  { s with known := NodeIDs.merge s.known list }

-- There is no id if a key is malformed.
def newInfos (s : RandomStorage) (list : List NodeInfo) : Option RandomStorage := do
  let ids ← list.mapM NodeInfo.getId
  some { s.newList ids with infos := (s.infos ++ list).eraseDups }

def getConnectedInfo (s : RandomStorage) : Option (List NodeInfo) :=
  s.infos.filterM fun ni => ni.getId.map s.connected.contains

def connect (s : RandomStorage) (nodes : List NodeID) : RandomStorage :=
  newList
    { s with
      connected  := s.connected.addNew nodes
      connecting := s.connecting.remove nodes }
    nodes

def disconnect (s : RandomStorage) (nodes : List NodeID) : RandomStorage :=
  { s with
    known      := (NodeIDs.removeExisting s.known nodes).1
    connected  := s.connected.remove nodes
    connecting := s.connecting.remove nodes }

def setConnecting (s : RandomStorage) (nodes : List NodeID) : RandomStorage :=
  newList
    { s with
      connecting := s.connecting.addNew nodes
      connected  := s.connected.remove nodes }
    nodes

def totalLen (s : RandomStorage) : Nat :=
  s.connected.length + s.connecting.length

def failure (s : RandomStorage) (nodes : List NodeID) : RandomStorage :=
  { s with
    connecting := s.connecting.remove nodes
    connected  := s.connected.remove nodes
    known      := (NodeIDs.removeExisting s.known nodes).1 }

def tick (s : RandomStorage) : RandomStorage :=
  { s with connected := s.connected.tick, connecting := s.connecting.tick }

def chooseNew (s : RandomStorage) (c : Choose) (nodes : Nat) : RandomStorage × List NodeID :=
  let unused     := (NodeIDs.removeExisting s.known s.connected.getNodes).1
  let unused     := (NodeIDs.removeExisting unused s.connecting.getNodes).1
  let connecting := c.choose unused (min nodes unused.length)
  (s.setConnecting connecting, connecting)

-- The number of nodes which is needed for a connected network with high probability.
def nodesNeeded [LnCeil] (s : RandomStorage) : Nat :=
  if s.known.length ≤ 1 then s.known.length else LnCeil.lnCeil s.known.length

def fillUp [LnCeil] (s : RandomStorage) (c : Choose) : RandomStorage × List NodeID :=
  let needed := (Int32.ofNat s.nodesNeeded + 1) / 2 - Int32.ofNat s.totalLen
  s.chooseNew c needed.toNatClampNeg

-- What the three lists have to be.
structure Partition (s : RandomStorage) : Prop where
  disjoint        : s.connected.getNodes.Disjoint s.connecting.getNodes
  connected       : s.connected.getNodes.Nodup
  connecting      : s.connecting.getNodes.Nodup
  known           : s.known.Nodup
  connectedKnown  : s.connected.getNodes ⊆ s.known
  connectingKnown : s.connecting.getNodes ⊆ s.known

variable {s : RandomStorage} {ns : Nodes} {nodes : List NodeID}

theorem getNodes_remove : (ns.remove nodes).getNodes = ns.getNodes.filter (· ∉ nodes) := by
  rw [Nodes.remove, Nodes.getNodes, Nodes.getNodes, List.filter_map]
  rfl

theorem getNodes_addNew : (ns.addNew nodes).getNodes = NodeIDs.merge ns.getNodes nodes := by
  have hc : (fun n => !ns.contains n) = fun n => decide (n ∉ ns.getNodes) := by
    funext n
    simp [Nodes.contains]
  have hi : NodeTime.id ∘ (fun id => { id, ticks := 0 }) = id := rfl
  rw [Nodes.addNew, Nodes.getNodes, List.map_append, List.map_map, hi, List.map_id, hc]
  rfl

theorem getNodes_tick : ns.tick.getNodes = ns.getNodes := by
  rw [Nodes.tick, Nodes.getNodes, List.map_map]
  rfl

namespace Partition

theorem new : RandomStorage.new.Partition where
  disjoint        := List.disjoint_nil_left _
  connected       := List.nodup_nil
  connecting      := List.nodup_nil
  known           := List.nodup_nil
  connectedKnown  := List.nil_subset _
  connectingKnown := List.nil_subset _

theorem newList (h : s.Partition) (hn : (nodes.filter (· ∉ s.known)).Nodup)
    (infos : List NodeInfo) : { s.newList nodes with infos }.Partition :=
  { h with
    known           := NodeIDs.nodup_merge.mpr ⟨h.known, hn⟩
    connectedKnown  := fun _ hi => NodeIDs.mem_merge.mpr <| .inl (h.connectedKnown hi)
    connectingKnown := fun _ hi => NodeIDs.mem_merge.mpr <| .inl (h.connectingKnown hi) }

-- What is added to one list and removed from another.
theorem move {own other : Nodes} (hd : own.getNodes.Disjoint other.getNodes)
    (ht : own.getNodes.Nodup) (hn : nodes.Nodup) :
    (own.addNew nodes).getNodes.Disjoint (other.remove nodes).getNodes ∧
      (own.addNew nodes).getNodes.Nodup := by
  rw [getNodes_addNew, getNodes_remove]
  refine ⟨fun i hi ho => ?_, NodeIDs.nodup_merge.mpr ⟨ht, hn.filter _⟩⟩
  have ⟨ho, hm⟩ := List.mem_filter.mp ho
  cases NodeIDs.mem_merge.mp hi
  case inl hi => exact hd hi ho
  case inr hi => exact of_decide_eq_true hm hi

theorem subset_merge {own known : List NodeID} (h : own ⊆ known) :
    NodeIDs.merge own nodes ⊆ NodeIDs.merge known nodes := by
  intro i hi
  exact NodeIDs.mem_merge.mpr <| (NodeIDs.mem_merge.mp hi).imp_left (h ·)

theorem filter_subset_merge {other known : List NodeID} (h : other ⊆ known) :
    other.filter (· ∉ nodes) ⊆ NodeIDs.merge known nodes :=
  fun _ hi => NodeIDs.mem_merge.mpr <| .inl <| h (List.mem_of_mem_filter hi)

theorem connect (h : s.Partition) (hn : nodes.Nodup) : (s.connect nodes).Partition := by
  have ⟨hd, hc⟩ := move h.disjoint h.connected hn
  constructor
  case disjoint   => exact hd
  case connected  => exact hc
  case connecting =>
    rw [RandomStorage.connect, RandomStorage.newList, getNodes_remove]
    exact h.connecting.filter _
  case known => exact NodeIDs.nodup_merge.mpr ⟨h.known, hn.filter _⟩
  case connectedKnown =>
    rw [RandomStorage.connect, RandomStorage.newList, getNodes_addNew]
    exact subset_merge h.connectedKnown
  case connectingKnown =>
    rw [RandomStorage.connect, RandomStorage.newList, getNodes_remove]
    exact filter_subset_merge h.connectingKnown

theorem setConnecting (h : s.Partition) (hn : nodes.Nodup) : (s.setConnecting nodes).Partition := by
  have ⟨hd, hc⟩ := move (List.disjoint_symm h.disjoint) h.connecting hn
  constructor
  case disjoint   => exact List.disjoint_symm hd
  case connecting => exact hc
  case connected  =>
    rw [RandomStorage.setConnecting, RandomStorage.newList, getNodes_remove]
    exact h.connected.filter _
  case known => exact NodeIDs.nodup_merge.mpr ⟨h.known, hn.filter _⟩
  case connectedKnown =>
    rw [RandomStorage.setConnecting, RandomStorage.newList, getNodes_remove]
    exact filter_subset_merge h.connectedKnown
  case connectingKnown =>
    rw [RandomStorage.setConnecting, RandomStorage.newList, getNodes_addNew]
    exact subset_merge h.connectingKnown

theorem disconnect (h : s.Partition) : (s.disconnect nodes).Partition := by
  have hs {l known : List NodeID} (h : l ⊆ known) :
      l.filter (· ∉ nodes) ⊆ known.filter (· ∉ nodes) := List.filter_subset _ h
  constructor
  all_goals simp only [RandomStorage.disconnect, getNodes_remove, NodeIDs.removeExisting_eq]
  case disjoint =>
    exact fun _ hi ho => h.disjoint (List.mem_of_mem_filter hi) (List.mem_of_mem_filter ho)
  case connected       => exact h.connected.filter _
  case connecting      => exact h.connecting.filter _
  case known           => exact h.known.filter _
  case connectedKnown  => exact hs h.connectedKnown
  case connectingKnown => exact hs h.connectingKnown

theorem tick (h : s.Partition) : s.tick.Partition := by
  constructor
  all_goals simp only [RandomStorage.tick, getNodes_tick]
  case disjoint        => exact h.disjoint
  case connected       => exact h.connected
  case connecting      => exact h.connecting
  case known           => exact h.known
  case connectedKnown  => exact h.connectedKnown
  case connectingKnown => exact h.connectingKnown

theorem chooseNew (h : s.Partition) (c : Choose) (n : Nat) : (s.chooseNew c n).1.Partition := by
  apply h.setConnecting
  have hs : (NodeIDs.removeExisting (NodeIDs.removeExisting s.known s.connected.getNodes).1
      s.connecting.getNodes).1.Nodup := by
    rw [NodeIDs.removeExisting_eq, NodeIDs.removeExisting_eq]
    exact (h.known.filter _).filter _
  obtain ⟨l, hp, hl⟩ := c.subperm _ _
  exact hp.nodup_iff.mp <| hs.sublist hl

end Partition

-- Choosing nodes removes none of those which are known.
theorem known_chooseNew (c : Choose) (n : Nat) : s.known <+: (s.chooseNew c n).1.known :=
  List.prefix_append _ _

end RandomStorage

end RandomConnections
