import Fledger.Lib.Front
import Fledger.RandomConnections.Core
import Mathlib.Data.List.Sort
import Mathlib.Data.List.Nodup

namespace RandomConnections

namespace Nodes

-- What is left, and what is removed.
abbrev Removed := Nodes × List NodeID

def removeMissing (ns : Nodes) (nodes : List NodeID) : Removed :=
  let removed := (NodeIDs.removeMissing ns.getNodes nodes).2
  (ns.filter (·.id ∉ removed), removed)

-- `splice(..n, vec![])`.
def splice (ns : Nodes) (n : Nat) : Removed :=
  (ns.drop n, (ns.take n).map NodeTime.id)

-- `sort_by` is stable.
def removeOldestN (ns : Nodes) (n : Nat) : Removed :=
  let ns := ns.insertionSort fun a b => b.ticks ≤ a.ticks
  splice ns (min n ns.length)

def removeNewestN (ns : Nodes) (n : Nat) : Removed :=
  let ns := ns.insertionSort fun a b => a.ticks ≤ b.ticks
  splice ns (min n ns.length)

def keepNewestN (ns : Nodes) (n : Nat) : Removed :=
  if ns.length > n then ns.removeOldestN (ns.length - n) else (ns, [])

def keepOldestN (ns : Nodes) (n : Nat) : Removed :=
  if ns.length > n then ns.removeNewestN (ns.length - n) else (ns, [])

def sorted (ns : Nodes) (rising : Bool) : Nodes :=
  let sorted := ns.insertionSort fun a b => a.ticks ≤ b.ticks
  if rising then sorted else sorted.reverse

def oldestTicks (ns : Nodes) (ticks : UInt32) : List NodeID :=
  ((ns.sorted false).takeWhile fun n => ticks ≤ n.ticks).map NodeTime.id

-- The oldest nodes are found in a sorted copy, and the first ones are cut off.
def removeOldestTicks (ns : Nodes) (ticks : UInt32) : Removed :=
  let nodes := ns.oldestTicks ticks
  (ns.drop nodes.length, nodes)

-- Some operation removes what is specified, and it leaves all other nodes.
structure Removes (ns : Nodes) (specified : List NodeID → Prop) (r : Removed) : Prop where
  left     : r.1.getNodes.Perm (ns.getNodes.filter (· ∉ r.2))
  returned : specified r.2

-- So many nodes, before which none of the others comes.
structure Foremost (before : UInt32 → UInt32 → Prop) (ns : Nodes) (n : Nat) (ids : List NodeID) :
    Prop where
  subperm  : ids.Subperm ns.getNodes
  length   : ids.length = min n ns.length
  foremost : ∀ a ∈ ns, ∀ b ∈ ns, a.id ∈ ids → b.id ∉ ids → before a.ticks b.ticks

abbrev Oldest := Foremost (· ≥ ·)

abbrev Newest := Foremost (· ≤ ·)

def expired (ns : Nodes) (ticks : UInt32) : Nodes :=
  ns.filter fun n => ticks ≤ n.ticks

variable {ns first rest : Nodes} {a b : NodeTime} {ids nodes : List NodeID} {n : Nat}
  {ticks : UInt32} {before : UInt32 → UInt32 → Prop}

theorem mem_getNodes (h : ns.getNodes.Nodup) (ha : a ∈ ns) (hf : first ⊆ ns) :
    a.id ∈ first.getNodes ↔ a ∈ first := by
  constructor
  case mpr => exact fun h => List.mem_map_of_mem h
  case mp =>
    intro hi
    obtain ⟨b, hb, he⟩ := List.mem_map.mp hi
    exact List.inj_on_of_nodup_map h (hf hb) ha he ▸ hb

-- A list which is cut in two.
section Cut

variable (h : ns.getNodes.Nodup) (hp : ns.Perm (first ++ rest))

include hp in
theorem perm_getNodes : ns.getNodes.Perm (first.getNodes ++ rest.getNodes) := by
  have hm := hp.map NodeTime.id
  rwa [List.map_append] at hm

include h hp

theorem disjoint_cut : first.getNodes.Disjoint rest.getNodes :=
  List.disjoint_of_nodup_append <| (perm_getNodes hp).nodup_iff.mp h

theorem left_of_cut : rest.getNodes.Perm (ns.getNodes.filter (· ∉ first.getNodes)) := by
  have hf := (perm_getNodes hp).filter (· ∉ first.getNodes)
  have hr : ∀ i ∈ rest.getNodes, decide (i ∉ first.getNodes) := fun i hi =>
    decide_eq_true fun hm => disjoint_cut h hp hm hi
  have hn : first.getNodes.filter (· ∉ first.getNodes) = [] :=
    List.filter_eq_nil_iff.mpr fun i hi hn => of_decide_eq_true hn hi
  rw [List.filter_append, hn, List.nil_append, List.filter_eq_self.mpr hr] at hf
  exact hf.symm

theorem foremost_of_cut (hb : ∀ a ∈ first, ∀ b ∈ rest, before a.ticks b.ticks) :
    Foremost before ns first.length first.getNodes where
  subperm  := (List.subperm_of_subset (perm_getNodes hp |>.nodup_iff.mp h).of_append_left
    fun _ hi => (perm_getNodes hp).mem_iff.mpr <| List.mem_append_left _ hi)
  length   := by
    rw [getNodes, List.length_map, hp.length_eq, List.length_append]
    omega
  foremost a ha b hn hf hr := by
    have hs : first ⊆ ns := fun _ hi => hp.mem_iff.mpr <| List.mem_append_left _ hi
    have hr : b ∈ rest := by
      rcases List.mem_append.mp (hp.mem_iff.mp hn) with hb | hb
      case inl => exact absurd (List.mem_map_of_mem hb) hr
      case inr => exact hb
    exact hb a ((mem_getNodes h ha hs).mp hf) b hr

end Cut

theorem Foremost.of_min (h : Foremost before ns (min n ns.length) ids) : Foremost before ns n ids :=
  { h with length := by rw [h.length]; omega }

-- The first nodes of a sorted list are removed.
theorem removes_splice {sorted : Nodes} (h : ns.getNodes.Nodup) (hp : sorted.Perm ns)
    (hs : sorted.Pairwise fun a b => before a.ticks b.ticks) (n : Nat) :
    Removes ns (Foremost before ns n) (splice sorted (min n sorted.length)) := by
  have hc : ns.Perm (sorted.take (min n sorted.length) ++ sorted.drop (min n sorted.length)) := by
    rw [List.take_append_drop]
    exact hp.symm
  have hb : ∀ a ∈ sorted.take (min n sorted.length), ∀ b ∈ sorted.drop (min n sorted.length),
      before a.ticks b.ticks := by
    rw [← List.take_append_drop (min n sorted.length) sorted, List.pairwise_append] at hs
    exact hs.right.right
  have hf := foremost_of_cut h hc hb
  rw [List.length_take, Nat.min_assoc, Nat.min_self, hp.length_eq] at hf
  refine ⟨left_of_cut h hc, ?_⟩
  rw [splice, hp.length_eq]
  exact hf.of_min

theorem sort_perm (le : UInt32 → UInt32 → Prop) [DecidableRel le] (ns : Nodes) :
    (ns.insertionSort fun a b => le a.ticks b.ticks).Perm ns :=
  List.perm_insertionSort ..

theorem sort_pairwise (le : UInt32 → UInt32 → Prop) [DecidableRel le] [Std.Total le]
    [IsTrans UInt32 le] (ns : Nodes) :
    (ns.insertionSort fun a b => le a.ticks b.ticks).Pairwise fun a b => le a.ticks b.ticks := by
  have : Std.Total fun a b : NodeTime => le a.ticks b.ticks :=
    ⟨fun a b => total_of le a.ticks b.ticks⟩
  have : IsTrans NodeTime fun a b => le a.ticks b.ticks := ⟨fun _ _ _ => trans_of le⟩
  exact List.pairwise_insertionSort ..

theorem removes_oldest_n (h : ns.getNodes.Nodup) (n : Nat) :
    Removes ns (Oldest ns n) (ns.removeOldestN n) :=
  removes_splice h (sort_perm (· ≥ ·) ns) (sort_pairwise (· ≥ ·) ns) n

theorem removes_newest_n (h : ns.getNodes.Nodup) (n : Nat) :
    Removes ns (Newest ns n) (ns.removeNewestN n) :=
  removes_splice h (sort_perm (· ≤ ·) ns) (sort_pairwise (· ≤ ·) ns) n

-- Nothing is removed.
theorem removes_nil (h : ns.length ≤ n) :
    Removes ns (Foremost before ns (ns.length - n)) (ns, []) where
  left     := by simp
  returned :=
    { subperm  := List.nil_subperm
      length   := by simp; omega
      foremost := fun _ _ _ _ h => absurd h List.not_mem_nil }

theorem removes_keep_newest_n (h : ns.getNodes.Nodup) (n : Nat) :
    Removes ns (Oldest ns (ns.length - n)) (ns.keepNewestN n) := by
  unfold keepNewestN
  split
  case isTrue     => exact removes_oldest_n h _
  case isFalse hl => exact removes_nil (Nat.le_of_not_gt hl)

theorem removes_keep_oldest_n (h : ns.getNodes.Nodup) (n : Nat) :
    Removes ns (Newest ns (ns.length - n)) (ns.keepOldestN n) := by
  unfold keepOldestN
  split
  case isTrue     => exact removes_newest_n h _
  case isFalse hl => exact removes_nil (Nat.le_of_not_gt hl)

theorem removes_missing (ns : Nodes) (nodes : List NodeID) :
    Removes ns (·.Perm (ns.getNodes.filter (· ∉ nodes))) (ns.removeMissing nodes) where
  left     := by rw [removeMissing, ← remove, RandomStorage.getNodes_remove]
  returned := by simp [removeMissing, NodeIDs.removeMissing, NodeIDs.remove]

theorem front_sorted (ns : Nodes) (ticks : UInt32) :
    (ns.sorted false).Front fun n => ticks ≤ n.ticks := by
  refine List.pairwise_reverse.mpr <| (sort_pairwise (· ≤ ·) ns).imp fun {a b} hab hp => ?_
  exact decide_eq_true <| UInt32.le_trans (of_decide_eq_true hp) hab

theorem oldestTicks_perm (ns : Nodes) (ticks : UInt32) :
    (ns.oldestTicks ticks).Perm (ns.expired ticks).getNodes := by
  rw [oldestTicks, (front_sorted ns ticks).takeWhile_eq]
  exact (((List.reverse_perm _).trans <| sort_perm (· ≤ ·) ns).filter _).map _

theorem length_oldestTicks : (ns.oldestTicks ticks).length = (ns.expired ticks).length := by
  rw [(oldestTicks_perm ns ticks).length_eq, getNodes, List.length_map]

-- The positions which are cut off are those of the oldest nodes.
theorem removes_oldest_ticks_iff (h : ns.getNodes.Nodup) :
    Removes ns (·.Perm (ns.expired ticks).getNodes) (ns.removeOldestTicks ticks) ↔
      ns.Front fun n => ticks ≤ n.ticks := by
  have hm : ∀ i, i ∈ ns.oldestTicks ticks ↔ i ∈ (ns.expired ticks).getNodes := fun _ =>
    (oldestTicks_perm ns ticks).mem_iff
  constructor
  case mp =>
    intro hr
    refine List.Front.iff_drop.mpr fun a ha hp => ?_
    have hl : a.id ∈ (ns.removeOldestTicks ticks).1.getNodes := by
      rw [removeOldestTicks, length_oldestTicks]
      exact List.mem_map_of_mem ha
    have hn := (List.mem_filter.mp <| hr.left.mem_iff.mp hl).right
    refine of_decide_eq_true hn <| (hm _).mpr <| List.mem_map_of_mem ?_
    exact List.mem_filter.mpr ⟨List.mem_of_mem_drop ha, hp⟩
  case mpr =>
    intro hf
    have hc : ns.Perm (ns.expired ticks ++ ns.drop (ns.oldestTicks ticks).length) := by
      rw [length_oldestTicks, expired, hf.drop_eq]
      exact .of_eq hf.eq_append
    refine ⟨?_, oldestTicks_perm ns ticks⟩
    refine (left_of_cut h hc).trans <| .of_eq <| List.filter_congr fun i _ => ?_
    exact decide_eq_decide.mpr <| not_congr (hm i).symm

theorem removes (ns : Nodes) (h : ns.getNodes.Nodup) (n : Nat) (ticks : UInt32)
    (nodes : List NodeID) :
    Removes ns (Oldest ns n) (ns.removeOldestN n) ∧
      Removes ns (Newest ns n) (ns.removeNewestN n) ∧
      Removes ns (Oldest ns (ns.length - n)) (ns.keepNewestN n) ∧
      Removes ns (Newest ns (ns.length - n)) (ns.keepOldestN n) ∧
      Removes ns (·.Perm (ns.getNodes.filter (· ∉ nodes))) (ns.removeMissing nodes) ∧
      (Removes ns (·.Perm (ns.expired ticks).getNodes) (ns.removeOldestTicks ticks) ↔
        ns.Pairwise fun a b => ticks ≤ b.ticks → ticks ≤ a.ticks) := by
  refine ⟨removes_oldest_n h n, removes_newest_n h n, removes_keep_newest_n h n,
    removes_keep_oldest_n h n, removes_missing ns nodes, ?_⟩
  rw [removes_oldest_ticks_iff h, List.Front]
  simp only [decide_eq_true_eq]

-- The nodes of the test, from the newest to the oldest.
def makeNodes : Nodes :=
  (List.range 5).map fun node =>
    { id := .ofPrefix [UInt8.ofNat node], ticks := UInt32.ofNat node + 1 }

theorem removes_makeNodes : makeNodes.getNodes.Nodup ∧
    Removes makeNodes (Oldest makeNodes 2) (makeNodes.removeOldestN 2) := by
  have h : makeNodes.getNodes.Nodup := by decide +kernel
  exact ⟨h, (removes makeNodes h 2 4 []).left⟩

-- The two oldest nodes are returned, but the two newest ones are removed.
theorem not_removes_makeNodes : makeNodes.getNodes.Nodup ∧
    ¬Removes makeNodes (·.Perm (makeNodes.expired 4).getNodes) (makeNodes.removeOldestTicks 4) := by
  have h : makeNodes.getNodes.Nodup ∧
      .ofPrefix [4] ∈ (makeNodes.removeOldestTicks 4).1.getNodes ∧
      .ofPrefix [4] ∈ (makeNodes.removeOldestTicks 4).2 := by
    decide +kernel
  refine ⟨h.left, fun hr => ?_⟩
  have hl := List.mem_filter.mp <| hr.left.mem_iff.mp h.right.left
  exact of_decide_eq_true hl.right h.right.right

end Nodes

end RandomConnections
