import Fledger.DhtRouter.Kademlia
import Mathlib.Data.List.Nodup
import Mathlib.Data.List.Perm.Subperm

namespace KNode

-- What stays the same about a node, wherever it is moved.
def key (node : KNode) : NodeID × Nat :=
  (node.id, node.depth)

theorem key_tick (node : KNode) : node.tick.key = node.key :=
  rfl

theorem key_active (node : KNode) : node.active.key = node.key :=
  rfl

end KNode

-- The nodes are different, none of them is the root, and all of them are at their depth.
structure Placed (root : NodeID) (inRange : Nat → Prop) (keys : List (NodeID × Nat)) : Prop where
  nodup   : keys.Nodup
  notRoot : ∀ {key}, key ∈ keys → key.1 ≠ root
  depth   : ∀ {key}, key ∈ keys → key.2 = KNode.getDepth root key.1
  inRange : ∀ {key}, key ∈ keys → inRange key.2

namespace Placed

variable {root : NodeID} {p q : Nat → Prop} {keys keys' : List (NodeID × Nat)} {id : NodeID}

theorem nil (root : NodeID) (p : Nat → Prop) : Placed root p [] := by
  constructor <;> simp

theorem subperm (h : Placed root p keys) (hs : keys'.Subperm keys) : Placed root p keys' where
  nodup       := by
    have ⟨_, hp, hl⟩ := hs
    exact hp.nodup_iff.mp <| h.nodup.sublist hl
  notRoot hm  := h.notRoot <| hs.subset hm
  depth hm    := h.depth <| hs.subset hm
  inRange hm  := h.inRange <| hs.subset hm

theorem mono (h : Placed root p keys) (hq : ∀ key ∈ keys, p key.2 → q key.2) :
    Placed root q keys where
  nodup      := h.nodup
  notRoot    := h.notRoot
  depth      := h.depth
  inRange hm := hq _ hm (h.inRange hm)

-- Nodes at different depths are different.
theorem append (h : Placed root p keys) (h' : Placed root p keys')
    (hd : ∀ key ∈ keys, ∀ key' ∈ keys', key.2 ≠ key'.2) : Placed root p (keys ++ keys') where
  nodup       := List.nodup_append.mpr ⟨h.nodup, h'.nodup, fun key hk key' hk' he =>
    hd key hk key' hk' <| he ▸ rfl⟩
  notRoot hm  := (List.mem_append.mp hm).elim h.notRoot h'.notRoot
  depth hm    := (List.mem_append.mp hm).elim h.depth h'.depth
  inRange hm  := (List.mem_append.mp hm).elim h.inRange h'.inRange

theorem concat (h : Placed root p keys) (hr : id ≠ root) (hn : id ∉ keys.map Prod.fst)
    (hp : p (KNode.getDepth root id)) :
    Placed root p (keys ++ [(KNode.new root id).key]) where
  nodup := by
    refine List.nodup_append.mpr ⟨h.nodup, List.nodup_singleton _, fun key hk key' hk' he => hn ?_⟩
    cases List.mem_singleton.mp hk'
    exact List.mem_map.mpr ⟨key, hk, congrArg Prod.fst he⟩
  notRoot hm  := (List.mem_append.mp hm).elim h.notRoot fun hm => List.mem_singleton.mp hm ▸ hr
  depth hm    := (List.mem_append.mp hm).elim h.depth fun hm => List.mem_singleton.mp hm ▸ rfl
  inRange hm  := (List.mem_append.mp hm).elim h.inRange fun hm => List.mem_singleton.mp hm ▸ hp

theorem nodup_ids (h : Placed root p keys) : (keys.map Prod.fst).Nodup := by
  refine h.nodup.map_on fun key hk key' hk' he => Prod.ext he ?_
  rw [h.depth hk, h.depth hk', he]

end Placed

namespace KBucket

def nodes (b : KBucket) : List KNode :=
  b.active ++ b.cache

def keys (b : KBucket) : List (NodeID × Nat) :=
  b.nodes.map KNode.key

variable {b b' : KBucket} {config : Kademlia.Config} {isRoot : Bool} {node : KNode} {id : NodeID}
  {depth n : Nat}

theorem sortByDepth_perm (nodes : List KNode) : (sortByDepth nodes).Perm nodes :=
  List.perm_insertionSort ..

theorem sortByDepth_sorted (nodes : List KNode) :
    (sortByDepth nodes).Pairwise fun a b => a.depth ≤ b.depth := by
  have : Std.Total fun a b : KNode => a.depth ≤ b.depth := ⟨fun a b => Nat.le_total a.depth b.depth⟩
  have : IsTrans KNode fun a b => a.depth ≤ b.depth := ⟨fun _ _ _ => Nat.le_trans⟩
  exact List.pairwise_insertionSort ..

-- What all operations keep, whatever the nodes are.
structure Shaped (b : KBucket) (config : Kademlia.Config) (isRoot : Bool) : Prop where
  config_eq : b.config = config
  isRoot_eq : b.isRoot = isRoot
  sorted    : b.active.Pairwise fun a b => a.depth ≤ b.depth
  active_le : isRoot = false → b.active.length ≤ config.k
  cache_le  : isRoot = false → b.cache.length ≤ 2 * config.k

theorem shaped_new (config : Kademlia.Config) : (KBucket.new config).Shaped config false := by
  constructor <;> simp [KBucket.new]

theorem shaped_newRoot (config : Kademlia.Config) : (newRoot config).Shaped config true := by
  constructor <;> simp [newRoot]

theorem keys_addNode (b : KBucket) (node : KNode) :
    (b.addNode node).keys.Subperm (b.keys ++ [node.key]) := by
  unfold addNode
  split
  case isTrue  => simp [keys, nodes, List.Subperm.refl]
  case isFalse => exact (List.sublist_append_left ..).subperm

theorem Shaped.addNode (h : b.Shaped config isRoot) (node : KNode) :
    (b.addNode node).Shaped config isRoot := by
  unfold KBucket.addNode
  split
  case isFalse => exact h
  case isTrue hc =>
    refine ⟨h.config_eq, h.isRoot_eq, h.sorted, h.active_le, fun hr => ?_⟩
    simp only [h.isRoot_eq, hr, h.config_eq, Bool.false_or, decide_eq_true_eq] at hc
    simpa using Nat.succ_le_of_lt hc

theorem keys_addNodeActive (b : KBucket) (node : KNode) :
    (b.addNodeActive node).keys.Subperm (b.keys ++ [node.key]) := by
  unfold addNodeActive
  split <;> [skip; split]
  case isTrue =>
    have hp := (sortByDepth_perm (b.active ++ [node])).append_right b.cache |>.map KNode.key
    have hc := List.perm_append_singleton node.key (b.cache.map KNode.key) |>.symm
    refine hp.subperm.trans <| List.Perm.subperm ?_
    simpa [keys, nodes] using hc.append_left (b.active.map KNode.key)
  case isFalse.isTrue  => simp [keys, nodes, List.Subperm.refl]
  case isFalse.isFalse => exact (List.sublist_append_left ..).subperm

theorem Shaped.addNodeActive (h : b.Shaped config isRoot) (node : KNode) :
    (b.addNodeActive node).Shaped config isRoot := by
  unfold KBucket.addNodeActive
  split <;> [skip; split]
  case isTrue hc =>
    refine ⟨h.config_eq, h.isRoot_eq, sortByDepth_sorted _, fun hr => ?_, h.cache_le⟩
    simp only [h.isRoot_eq, hr, h.config_eq, Bool.false_or, decide_eq_true_eq] at hc
    rw [(sortByDepth_perm _).length_eq]
    simpa using Nat.succ_le_of_lt hc
  case isFalse.isTrue hc =>
    refine ⟨h.config_eq, h.isRoot_eq, h.sorted, h.active_le, fun hr => ?_⟩
    rw [h.config_eq] at hc
    simp only [List.length_append, List.length_singleton]
    omega
  case isFalse.isFalse => exact h

theorem keys_foldl {f : KBucket → KNode → KBucket}
    (hf : ∀ b node, (f b node).keys.Subperm (b.keys ++ [node.key])) (b : KBucket)
    (ns : List KNode) : (ns.foldl f b).keys.Subperm (b.keys ++ ns.map KNode.key) := by
  induction ns generalizing b
  case nil => simp [List.Subperm.refl]
  case cons node ns hi =>
    refine (hi (f b node)).trans ?_
    have hk := (List.subperm_append_right (ns.map KNode.key)).mpr (hf b node)
    simpa using hk

theorem keys_addNodes (b : KBucket) (ns : List KNode) :
    (b.addNodes ns).keys.Subperm (b.keys ++ ns.map KNode.key) :=
  keys_foldl keys_addNode b ns

theorem keys_addNodesActive (b : KBucket) (ns : List KNode) :
    (b.addNodesActive ns).keys.Subperm (b.keys ++ ns.map KNode.key) :=
  keys_foldl keys_addNodeActive b ns

theorem Shaped.addNodes (h : b.Shaped config isRoot) (ns : List KNode) :
    (b.addNodes ns).Shaped config isRoot := by
  induction ns generalizing b
  case nil               => exact h
  case cons node rest hi => exact hi (h.addNode node)

theorem Shaped.addNodesActive (h : b.Shaped config isRoot) (ns : List KNode) :
    (b.addNodesActive ns).Shaped config isRoot := by
  induction ns generalizing b
  case nil               => exact h
  case cons node rest hi => exact hi (h.addNodeActive node)

theorem keys_removeNode (b : KBucket) (id : NodeID) : (b.removeNode id).keys.Subperm b.keys :=
  ((List.filter_sublist.append List.filter_sublist).map _).subperm

theorem Shaped.removeNode (h : b.Shaped config isRoot) (id : NodeID) :
    (b.removeNode id).Shaped config isRoot where
  config_eq    := h.config_eq
  isRoot_eq    := h.isRoot_eq
  sorted       := h.sorted.sublist List.filter_sublist
  active_le hr := (List.length_filter_le ..).trans (h.active_le hr)
  cache_le hr  := (List.length_filter_le ..).trans (h.cache_le hr)

theorem cons_eraseP_perm {p : KNode → Bool} {nodes : List KNode} (h : nodes.find? p = some node) :
    (node :: nodes.eraseP p).Perm nodes := by
  induction nodes
  case nil => simp at h
  case cons node' nodes hi =>
    rw [List.find?_cons] at h
    cases hp : p node' <;> simp only [hp, Option.some.injEq] at h
    case true  => simp [← h, hp]
    case false =>
      rw [List.eraseP_cons_of_neg (by simp [hp])]
      exact (List.Perm.swap ..).trans <| (hi h).cons node'

-- What `n` steps of moving the first node at the depth leave of the nodes.
structure Moved (d n : Nat) (nodes rest moved : List KNode) : Prop where
  perm    : (rest ++ moved).Perm nodes
  sublist : rest.Sublist nodes
  depth   : ∀ node ∈ moved, node.depth = d
  count   : rest.countP (·.depth == d) = nodes.countP (·.depth == d) - n

theorem moved_moveAtDepth (depth n : Nat) (nodes : List KNode) :
    Moved depth n nodes (moveAtDepth depth n nodes).1 (moveAtDepth depth n nodes).2 := by
  induction n generalizing nodes
  case zero => exact ⟨by simp [moveAtDepth], List.Sublist.refl _, by simp [moveAtDepth], rfl⟩
  case succ n hi =>
    cases hf : nodes.find? (·.depth == depth) <;> simp only [moveAtDepth, hf]
    case none =>
      have hc : nodes.countP (·.depth == depth) = 0 := List.countP_eq_zero.mpr <| by simpa using hf
      have h := hi nodes
      exact ⟨h.perm, h.sublist, h.depth, by rw [h.count, hc]; simp⟩
    case some node =>
      have h := hi (nodes.eraseP (·.depth == depth))
      have hd := List.find?_some hf
      have hp := cons_eraseP_perm hf
      refine ⟨?perm, h.sublist.trans List.eraseP_sublist, ?depth, ?count⟩
      case perm  => exact List.perm_middle.trans (h.perm.cons node) |>.trans hp
      case depth => simpa using ⟨by simpa using hd, h.depth⟩
      case count =>
        have hc := hp.countP_eq (·.depth == depth)
        simp only [List.countP_cons, hd, if_true] at hc
        rw [h.count, ← hc]
        omega

theorem status_eq_overflowing :
    b.status = .overflowing ↔ 2 * b.config.k ≤ b.nodes.length ∧ b.overflowImbalance = false := by
  simp only [status, nodes, List.length_append]
  split <;> [cases b.overflowImbalance; split] <;> simp_all

theorem overflowImbalance_eq_false (h : b.overflowImbalance = false)
    (hd : ∀ node ∈ b.nodes, depth ≤ node.depth) :
    b.nodes.countP (·.depth == depth) = 0 ∨
      b.config.k ≤ b.nodes.length - b.nodes.countP (·.depth == depth) := by
  by_cases hc : depth ∈ b.nodes.map KNode.depth
  case neg =>
    refine .inl <| List.countP_eq_zero.mpr fun node hm he => hc ?_
    exact List.mem_map.mpr ⟨node, hm, by simpa using he⟩
  case pos =>
    refine .inr ?_
    have hp := List.perm_insertionSort (· ≤ ·) (b.nodes.map KNode.depth)
    have hs := List.pairwise_insertionSort (· ≤ ·) (b.nodes.map KNode.depth)
    cases hm : (b.nodes.map KNode.depth).insertionSort (· ≤ ·)
    case nil => rw [hm] at hp; simp [hp.nil_eq.symm] at hc
    case cons first rest =>
      have hle : first ≤ depth := by
        have hd := hp.mem_iff.mpr hc
        rw [hm] at hs hd
        rcases List.mem_cons.mp hd with rfl | hd
        · exact Nat.le_refl _
        · simpa using List.rel_of_pairwise_cons hs hd
      have hge : depth ≤ first := by
        have hf := hp.mem_iff.mp <| hm ▸ List.mem_cons_self
        have ⟨node, hn, he⟩ := List.mem_map.mp hf
        exact he ▸ hd node hn
      have hcount : (first :: rest).count first = b.nodes.countP (·.depth == depth) := by
        rw [← hm, hp.count_eq, Nat.le_antisymm hle hge, List.count_eq_countP, List.countP_map]
        rfl
      have hlen : (first :: rest).length = b.nodes.length := by
        rw [← hm, hp.length_eq, List.length_map]
      have hi : b.overflowImbalance =
          decide ((first :: rest).length - (first :: rest).count first < b.config.k) := by
        rw [nodes] at hm
        simp only [overflowImbalance, hm, List.head?_cons]
      rw [h, hcount, hlen] at hi
      simpa using hi.symm

-- An overflowing bucket has enough other nodes to give up all nodes at its smallest depth.
theorem count_le_of_overflowing (h : b.status = .overflowing)
    (hd : ∀ node ∈ b.nodes, depth ≤ node.depth) :
    b.nodes.countP (·.depth == depth) ≤ b.nodes.length - b.config.k := by
  have ⟨hk, ho⟩ := status_eq_overflowing.mp h
  have hl := List.countP_le_length (p := (·.depth == depth)) (l := b.nodes)
  rcases overflowImbalance_eq_false ho hd with hz | hle <;> omega

-- What an overflowing root bucket keeps, and what it gives up.
structure Split (b : KBucket) (d : Nat) (b' : KBucket) (active cache : List KNode) : Prop where
  keys  : (b'.keys ++ (active.map KNode.key ++ cache.map KNode.key)).Perm b.keys
  moved : ∀ node ∈ active ++ cache, node.depth = d
  rest  : ∀ node ∈ b'.nodes, d < node.depth

theorem Shaped.removeAllNodesAtDepth (h : b.Shaped config true) (depth : Nat) :
    (b.removeAllNodesAtDepth depth).1.Shaped config true where
  config_eq := h.config_eq
  isRoot_eq := h.isRoot_eq
  sorted    := h.sorted.sublist (moved_moveAtDepth ..).sublist
  active_le := nofun
  cache_le  := nofun

theorem split_removeAllNodesAtDepth (h : b.status = .overflowing)
    (hd : ∀ node ∈ b.nodes, depth ≤ node.depth) :
    Split b depth (b.removeAllNodesAtDepth depth).1 (b.removeAllNodesAtDepth depth).2.1
      (b.removeAllNodesAtDepth depth).2.2 := by
  have hc := count_le_of_overflowing h hd
  simp only [nodes, List.countP_append, List.length_append] at hc
  simp only [KBucket.removeAllNodesAtDepth]
  generalize hn : b.cache.length + b.active.length - b.config.k = maxNodes
  have hcache := moved_moveAtDepth depth maxNodes b.cache
  generalize moveAtDepth depth maxNodes b.cache = c at hcache ⊢
  have hactive := moved_moveAtDepth depth (maxNodes - c.2.length) b.active
  generalize moveAtDepth depth (maxNodes - c.2.length) b.active = a at hactive ⊢
  -- As many nodes are moved as there are at the depth.
  have hm : c.2.length = c.2.countP (·.depth == depth) :=
    (List.countP_eq_length.mpr fun node hm => by simpa using hcache.depth node hm).symm
  have hp := hcache.perm.countP_eq (·.depth == depth)
  rw [List.countP_append] at hp
  have hcr : c.1.countP (·.depth == depth) = 0 := by
    rw [hcache.count]
    omega
  have har : a.1.countP (·.depth == depth) = 0 := by
    rw [hactive.count]
    omega
  refine ⟨?keys, ?moved, ?rest⟩
  case keys =>
    have hk := (hactive.perm.append hcache.perm).map KNode.key
    refine List.Perm.trans ?_ hk
    simp only [keys, nodes, List.map_append, List.append_assoc]
    exact .append_left _ <| List.perm_append_comm_assoc ..
  case moved => simpa [or_imp, forall_and] using ⟨hactive.depth, hcache.depth⟩
  case rest =>
    intro node hm
    refine lt_of_le_of_ne (hd node ?_) fun he => ?_
    · exact (hactive.sublist.append hcache.sublist).subset hm
    · have hz : (a.1 ++ c.1).countP (·.depth == depth) = 0 := by
        rw [List.countP_append, har, hcr]
      exact List.countP_eq_zero.mp hz node hm (by simp [he])

-- The buckets hold the same nodes in the same order, maybe with other ticks.
structure Same (b b' : KBucket) : Prop where
  config : b'.config = b.config
  isRoot : b'.isRoot = b.isRoot
  active : b'.active.map KNode.key = b.active.map KNode.key
  cache  : b'.cache.map KNode.key = b.cache.map KNode.key

theorem Same.refl (b : KBucket) : Same b b := by
  constructor <;> rfl

theorem Same.trans {b₁ b₂ b₃ : KBucket} (h₁ : Same b₁ b₂) (h₂ : Same b₂ b₃) : Same b₁ b₃ where
  config := h₂.config.trans h₁.config
  isRoot := h₂.isRoot.trans h₁.isRoot
  active := h₂.active.trans h₁.active
  cache  := h₂.cache.trans h₁.cache

theorem Same.keys (h : Same b b') : b'.keys = b.keys := by
  simp only [KBucket.keys, nodes, List.map_append, h.active, h.cache]

theorem Shaped.same (h : b.Shaped config isRoot) (hs : Same b b') : b'.Shaped config isRoot where
  config_eq    := hs.config.trans h.config_eq
  isRoot_eq    := hs.isRoot.trans h.isRoot_eq
  sorted       := by
    have hk : (b.active.map KNode.key).Pairwise fun a b => a.2 ≤ b.2 := List.pairwise_map.mpr h.sorted
    rw [← hs.active, List.pairwise_map] at hk
    exact hk
  active_le hr := by
    have hl := congrArg List.length hs.active
    simp only [List.length_map] at hl
    exact hl ▸ h.active_le hr
  cache_le hr  := by
    have hl := congrArg List.length hs.cache
    simp only [List.length_map] at hl
    exact hl ▸ h.cache_le hr

theorem map_key_modify (i : Nat) (ns : List KNode) :
    (ns.modify i KNode.active).map KNode.key = ns.map KNode.key := by
  induction ns generalizing i <;> cases i <;> simp
  case cons.zero       => rfl
  case cons.succ hi i  => exact hi i

theorem keys_nodeActive (b : KBucket) (id : NodeID) : (b.nodeActive id).1.keys.Perm b.keys := by
  unfold nodeActive
  split
  case h_1 i _ => simp [keys, nodes, map_key_modify]
  case h_2 =>
    split
    case h_2 => exact .refl _
    case h_1 kn hf =>
      have hp := ((cons_eraseP_perm hf).map KNode.key).append_left (b.active.map KNode.key)
      dsimp only
      split <;> simp only [keys, nodes, List.map_append, List.map_cons] at hp ⊢
      case isTrue =>
        refine (((sortByDepth_perm _).map KNode.key).append_right _).trans ?_
        simpa [KNode.key_active] using hp
      case isFalse =>
        refine List.Perm.trans ?_ hp
        exact .append_left _ (List.perm_append_singleton kn.key _)

theorem Shaped.nodeActive (h : b.Shaped config isRoot) (id : NodeID) :
    (b.nodeActive id).1.Shaped config isRoot := by
  unfold KBucket.nodeActive
  split
  case h_1 i _ => exact h.same ⟨rfl, rfl, map_key_modify i b.active, rfl⟩
  case h_2 =>
    split
    case h_2 => exact h
    case h_1 kn hf =>
      have hl := (cons_eraseP_perm hf).length_eq
      rw [List.length_cons] at hl
      dsimp only
      split
      case isTrue hc =>
        refine ⟨h.config_eq, h.isRoot_eq, sortByDepth_sorted _, fun hr => ?_, fun hr => ?_⟩
        · simp only [h.isRoot_eq, hr, h.config_eq, Bool.false_or, decide_eq_true_eq] at hc
          rw [(sortByDepth_perm _).length_eq]
          simpa using Nat.succ_le_of_lt hc
        · exact Nat.le_of_succ_le <| hl.trans_le (h.cache_le hr)
      case isFalse =>
        refine ⟨h.config_eq, h.isRoot_eq, h.sorted, h.active_le, fun hr => ?_⟩
        rw [List.length_append, List.length_singleton, hl]
        exact h.cache_le hr

theorem filterAuxM_isDue (h : config.pingInterval ≠ 0) (ns acc : List KNode) :
    ∃ due, ns.filterAuxM (KNode.isDue config) acc = some due := by
  induction ns generalizing acc
  case nil              => exact ⟨acc, rfl⟩
  case cons kn rest hi  => simpa [List.filterAuxM, KNode.isDue, h] using hi _

theorem filterM_isDue (h : config.pingInterval ≠ 0) (ns : List KNode) :
    ∃ due, ns.filterM (KNode.isDue config) = some due := by
  have ⟨due, hd⟩ := filterAuxM_isDue h ns []
  exact ⟨due.reverse, by simp [List.filterM, hd]⟩

theorem same_tickActive {ids : TickIDs} (h : b.tickActive = some (b', ids)) : Same b b' := by
  simp only [tickActive, Option.bind_eq_bind, Option.pure_def, Option.bind_eq_some_iff,
    Option.some.injEq, Prod.mk.injEq] at h
  obtain ⟨_, _, rfl, _⟩ := h
  exact ⟨rfl, rfl, by simp [Function.comp_def, KNode.key_tick], rfl⟩

theorem same_tickCache {ids : TickIDs} (h : b.tickCache = some (b', ids)) : Same b b' := by
  simp only [tickCache, Option.bind_eq_bind, Option.pure_def, Option.bind_eq_some_iff,
    Option.some.injEq, Prod.mk.injEq] at h
  obtain ⟨n, _, _, _, rfl, _⟩ := h
  refine ⟨rfl, rfl, rfl, ?_⟩
  simp only [List.splitAt_eq, List.map_append, List.map_map, Function.comp_def, KNode.key_tick]
  rw [← List.map_append, List.take_append_drop]

-- What a tick does is to advance the clocks, and to remove nodes.
theorem tick_eq_some {ids : TickIDs} (h : b.tick = some (b', ids)) :
    ∃ ticked, Same b ticked ∧ b' = ids.deleted.foldl KBucket.removeNode ticked := by
  simp only [tick, Option.bind_eq_bind, Option.pure_def, Option.bind_eq_some_iff,
    Option.some.injEq, Prod.mk.injEq, Prod.exists] at h
  obtain ⟨b₁, _, h₁, b₂, _, h₂, rfl, rfl⟩ := h
  exact ⟨b₂, (same_tickActive h₁).trans (same_tickCache h₂), rfl⟩

theorem keys_tick {ids : TickIDs} (h : b.tick = some (b', ids)) : b'.keys.Subperm b.keys := by
  have ⟨ticked, hs, hb⟩ := tick_eq_some h
  rw [hb, ← hs.keys]
  generalize ids.deleted = deleted
  clear hs hb
  induction deleted generalizing ticked
  case nil              => exact .refl _
  case cons id rest hi  => exact (hi (ticked.removeNode id)).trans (keys_removeNode ticked id)

theorem Shaped.tick {ids : TickIDs} (h : b.Shaped config isRoot) (ht : b.tick = some (b', ids)) :
    b'.Shaped config isRoot := by
  have ⟨ticked, hs, hb⟩ := tick_eq_some ht
  have ht := h.same hs
  rw [hb]
  generalize ids.deleted = deleted
  clear hs hb
  induction deleted generalizing ticked
  case nil             => exact ht
  case cons id rest hi => exact hi _ (ht.removeNode id)

-- The difference in `tick_cache` does not underflow.
theorem Shaped.fillupNodes_eq_some (h : b.Shaped config isRoot) :
    ∃ n, b.fillupNodes = some n := by
  unfold fillupNodes
  split <;> [skip; split]
  case isTrue          => exact ⟨_, rfl⟩
  case isFalse.isTrue  => exact ⟨_, rfl⟩
  case isFalse.isFalse hr hle =>
    refine absurd (h.active_le ?_) (h.config_eq ▸ hle)
    rw [← h.isRoot_eq]
    simpa using hr

theorem Shaped.tickActive_eq_some (h : b.Shaped config isRoot) (hp : config.pingInterval ≠ 0) :
    ∃ b' ids, b.tickActive = some (b', ids) := by
  have ⟨_, hd⟩ := filterM_isDue hp (b.active.map KNode.tick)
  simp [tickActive, h.config_eq, hd]

theorem Shaped.tickCache_eq_some (h : b.Shaped config isRoot) (hp : config.pingInterval ≠ 0) :
    ∃ b' ids, b.tickCache = some (b', ids) := by
  have ⟨n, hn⟩ := h.fillupNodes_eq_some
  have ⟨_, hd⟩ := filterM_isDue hp (b.cache.splitAt n).1
  rw [List.splitAt_eq] at hd
  simp [tickCache, h.config_eq, hn, hd]

theorem Shaped.tick_eq_some (h : b.Shaped config isRoot) (hp : config.pingInterval ≠ 0) :
    ∃ b' ids, b.tick = some (b', ids) := by
  have ⟨b₁, ids₁, h₁⟩ := h.tickActive_eq_some hp
  have ⟨b₂, ids₂, h₂⟩ := (h.same (same_tickActive h₁)).tickCache_eq_some hp
  simp [KBucket.tick, h₁, h₂]

end KBucket
