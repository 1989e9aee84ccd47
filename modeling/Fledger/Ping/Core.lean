import Fledger.Arch.Nodeids
import Fledger.Lib.HashMap

namespace Ping

-- `interval` is the number of ticks between two pings, `timeout` the number of ticks before a
-- missing ping is counted as disconnection.
structure PingConfig where
  interval : UInt32
  timeout  : UInt32

def PingConfig.default : PingConfig where
  interval := 5
  timeout  := 10

structure PingStat where
  lastping : UInt32
  rx       : UInt32
  tx       : UInt32
deriving DecidableEq

-- A node which has just been added.
def PingStat.new : PingStat where
  lastping := 0
  rx       := 0
  tx       := 1

structure PingStorage where
  stats  : HashMap NodeID PingStat
  ping   : List NodeID
  failed : List NodeID
  config : PingConfig

namespace PingStorage

def new (config : PingConfig) : PingStorage where
  stats  := ∅
  ping   := []
  failed := []
  config := config

def addNode (s : PingStorage) (id : NodeID) : PingStorage :=
  if id ∈ s.stats then s
  else
    { s with
      stats := s.stats.insert id .new
      ping  := s.ping ++ [id] }

def removeNode (s : PingStorage) (id : NodeID) : PingStorage :=
  { s with stats := s.stats.erase id, failed := s.failed ++ [id] }

def setNodes (s : PingStorage) (ids : List NodeID) : PingStorage :=
  let failed   := s.stats.keys.filter (· ∉ ids)
  let s        := failed.foldl removeNode s
  let newNodes := ids.filter (· ∉ s.stats)
  newNodes.foldl addNode s

def pong (s : PingStorage) (id : NodeID) : PingStorage :=
  match s.stats.lookup id with
  | some stat =>
    { s with
      stats := (s.stats.erase id).insert id { stat with lastping := 0, rx := stat.rx + 1 } }
  | none      => s.addNode id

end PingStorage

namespace PingStat

def failed (stat : PingStat) (config : PingConfig) : Bool :=
  stat.lastping + 1 ≥ config.timeout + config.interval

def pinged (stat : PingStat) (config : PingConfig) : Bool :=
  !stat.failed config && stat.lastping + 1 ≥ config.interval

-- What the loop of `tick_countdown` does with one entry.
def countdown (stat : PingStat) (config : PingConfig) : PingStat :=
  { stat with
    lastping := stat.lastping + 1
    tx       := if stat.pinged config then stat.tx + 1 else stat.tx }

end PingStat

namespace PingStorage

def tickCountdown (s : PingStorage) : PingStorage :=
  let failed := ((HashMap.pairs s.stats).filter (·.2.failed s.config)).map Prod.fst
  let pinged := ((HashMap.pairs s.stats).filter (·.2.pinged s.config)).map Prod.fst
  let s      :=
    { s with
      stats := HashMap.mapValues s.stats fun _ stat => stat.countdown s.config
      ping  := s.ping ++ pinged }
  failed.foldl removeNode s

def tick (s : PingStorage) : PingStorage :=
  tickCountdown { s with ping := [], failed := [] }

variable {s : PingStorage} {id i : NodeID}

theorem lookup_addNode :
    (s.addNode id).stats.lookup i =
      if i = id then some ((s.stats.lookup i).getD .new)
      else s.stats.lookup i := by
  rw [addNode]
  split
  case isTrue h =>
    have ⟨stat, hl⟩ := HashMap.mem_iff_lookup.mp h
    split
    case isTrue hi  => rw [hi, hl]; rfl
    case isFalse hi => rfl
  case isFalse h =>
    rw [HashMap.lookup_insert_eq]
    split
    case isTrue hi  => rw [hi, HashMap.not_mem_iff_lookup.mp h]; rfl
    case isFalse hi => rfl

theorem lookup_foldl_addNode (ids : List NodeID) :
    (ids.foldl addNode s).stats.lookup i =
      if i ∈ ids then some ((s.stats.lookup i).getD .new)
      else s.stats.lookup i := by
  induction ids generalizing s
  case nil => rfl
  case cons id ids hi =>
    rw [List.foldl_cons, hi, lookup_addNode]
    by_cases he : i = id <;> by_cases hm : i ∈ ids <;> simp [he, hm]

theorem foldl_removeNode (ids : List NodeID) :
    ids.foldl removeNode s =
      { s with stats  := ids.foldl (fun m id => m.erase id) s.stats
               failed := s.failed ++ ids } := by
  induction ids generalizing s
  case nil => simp
  case cons id ids hi => simp [hi, removeNode]

theorem mem_addNode : i ∈ (s.addNode id).stats ↔ i = id ∨ i ∈ s.stats := by
  simp only [HashMap.mem_iff_lookup, lookup_addNode]
  by_cases hi : i = id <;> simp [hi]

theorem count_ping_addNode :
    (s.addNode id).ping.count i = s.ping.count i + if i = id ∧ i ∉ s.stats then 1 else 0 := by
  rw [addNode]
  split
  case isTrue h =>
    have hn : ¬(i = id ∧ i ∉ s.stats) := fun hi => hi.right (hi.left ▸ h)
    rw [if_neg hn, Nat.add_zero]
  case isFalse h =>
    by_cases hi : i = id
    case pos =>
      subst hi
      simp [h]
    case neg => simp [hi, Ne.symm hi]

-- A node which is listed more than once is only added once.
theorem count_ping_foldl_addNode (ids : List NodeID) :
    (ids.foldl addNode s).ping.count i =
      s.ping.count i + if i ∈ ids ∧ i ∉ s.stats then 1 else 0 := by
  induction ids generalizing s
  case nil => simp
  case cons id ids hi =>
    rw [List.foldl_cons, hi, count_ping_addNode]
    simp only [mem_addNode, List.mem_cons]
    by_cases he : i = id <;> by_cases hs : i ∈ s.stats <;> simp [he, hs]

-- What the first loop of `set_nodes` leaves.
theorem lookup_foldl_removeNode (ids : List NodeID) :
    ((s.stats.keys.filter (· ∉ ids)).foldl removeNode s).stats.lookup i =
      if i ∈ ids then s.stats.lookup i else none := by
  have hk : i ∈ s.stats.keys.filter (· ∉ ids) ↔ i ∈ s.stats ∧ i ∉ ids := by
    simp [AList.mem_keys]
  rw [foldl_removeNode, HashMap.lookup_foldl_erase]
  simp only [hk]
  by_cases hm : i ∈ s.stats
  case pos => by_cases hi : i ∈ ids <;> simp [hm, hi]
  case neg => simp [hm, HashMap.not_mem_iff_lookup.mp hm]

theorem mem_foldl_removeNode {ids : List NodeID} (h : i ∈ ids) :
    i ∈ ((s.stats.keys.filter (· ∉ ids)).foldl removeNode s).stats ↔ i ∈ s.stats := by
  rw [HashMap.mem_iff_lookup, HashMap.mem_iff_lookup, lookup_foldl_removeNode, if_pos h]

theorem lookup_setNodes (ids : List NodeID) :
    (s.setNodes ids).stats.lookup i =
      if i ∈ ids then some ((s.stats.lookup i).getD .new) else none := by
  simp only [setNodes, lookup_foldl_addNode, lookup_foldl_removeNode, List.mem_filter]
  by_cases hi : i ∈ ids
  case neg => simp [hi]
  case pos =>
    cases hl : s.stats.lookup i
    case none =>
      have hn := mem_foldl_removeNode hi |>.not.mpr <| HashMap.not_mem_iff_lookup.mpr hl
      simp only [hi, hn, not_false_eq_true, decide_true, and_self, if_true]
    case some _ => simp [hi]

theorem lookup_pong :
    (s.pong id).stats.lookup i =
      if i = id then
        some <| (s.stats.lookup i).elim .new fun stat =>
          { stat with lastping := 0, rx := stat.rx + 1 }
      else s.stats.lookup i := by
  rw [pong]
  split
  case h_1 stat hl =>
    rw [HashMap.lookup_insert_eq, HashMap.lookup_erase_eq]
    split
    case isTrue hi  => rw [hi, hl]; rfl
    case isFalse hi => rfl
  case h_2 hl =>
    rw [lookup_addNode]
    split
    case isTrue hi  => rw [hi, hl]; rfl
    case isFalse hi => rfl

theorem lookup_tick :
    s.tick.stats.lookup i =
      (s.stats.lookup i).bind fun stat =>
        if stat.failed s.config then none else some (stat.countdown s.config) := by
  have hf := HashMap.mem_filter_pairs (·.failed s.config) s.stats i
  simp only [tick, tickCountdown, foldl_removeNode, HashMap.lookup_foldl_erase,
    HashMap.lookup_mapValues, hf]
  cases s.stats.lookup i
  case none   => rfl
  case some _ => rfl

theorem count_ping_setNodes (ids : List NodeID) :
    (s.setNodes ids).ping.count i =
      s.ping.count i + if i ∈ ids ∧ i ∉ s.stats then 1 else 0 := by
  have hp (failed : List NodeID) : (failed.foldl removeNode s).ping = s.ping := by
    rw [foldl_removeNode]
  simp only [setNodes, count_ping_foldl_addNode, List.mem_filter, hp, decide_eq_true_eq]
  by_cases hi : i ∈ ids
  case neg => simp [hi]
  case pos => simp only [hi, mem_foldl_removeNode hi, true_and, and_self]

theorem count_ping_pong :
    (s.pong id).ping.count i = s.ping.count i + if i = id ∧ i ∉ s.stats then 1 else 0 := by
  rw [pong]
  split
  case h_1 stat hl =>
    have hn : ¬(i = id ∧ i ∉ s.stats) := fun hi =>
      hi.right <| hi.left ▸ HashMap.mem_iff_lookup.mpr ⟨stat, hl⟩
    rw [if_neg hn, Nat.add_zero]
  case h_2 => exact count_ping_addNode

theorem config_addNode : (s.addNode id).config = s.config := by
  rw [addNode]
  split <;> rfl

theorem config_setNodes (ids : List NodeID) : (s.setNodes ids).config = s.config := by
  have ha (ids : List NodeID) (s : PingStorage) : (ids.foldl addNode s).config = s.config := by
    induction ids generalizing s
    case nil            => rfl
    case cons id ids hi => exact (hi _).trans config_addNode
  rw [setNodes, ha, foldl_removeNode]

theorem config_pong : (s.pong id).config = s.config := by
  rw [pong]
  split
  case h_1 => rfl
  case h_2 => exact config_addNode

theorem config_tick : s.tick.config = s.config := by
  simp only [tick, tickCountdown, foldl_removeNode]

theorem count_ping_tick :
    s.tick.ping.count i = if (s.stats.lookup i).any (·.pinged s.config) then 1 else 0 := by
  simp only [tick, tickCountdown, foldl_removeNode, List.nil_append]
  exact HashMap.count_filter_pairs (·.pinged s.config) s.stats i

theorem count_failed_tick :
    s.tick.failed.count i = if (s.stats.lookup i).any (·.failed s.config) then 1 else 0 := by
  simp only [tick, tickCountdown, foldl_removeNode, List.nil_append]
  exact HashMap.count_filter_pairs (·.failed s.config) s.stats i

end PingStorage

end Ping
