import Fledger.DhtRouter.Table

namespace KNode

-- The node may stay in the table.
def Fresh (config : Kademlia.Config) (node : KNode) : Prop :=
  node.ticksLast < config.pingTimeout

-- Besides, if it is the one with the id then it was idle for as many ticks at least.
structure Idle (config : Kademlia.Config) (id : NodeID) (ticks : Nat) (node : KNode) : Prop where
  fresh : node.Fresh config
  idle  : node.id = id → ticks ≤ node.ticksLast.toNat

variable {config : Kademlia.Config} {node : KNode} {id : NodeID} {ticks : Nat}

theorem not_isExpired : node.isExpired config = false ↔ node.Fresh config := by
  simp [isExpired, Fresh]

theorem fresh_new (h : 1 ≤ config.pingTimeout) (root id : NodeID) :
    (new root id).Fresh config := by
  have h : (0 : UInt32) < config.pingTimeout := by grind
  exact h

theorem fresh_active (h : 1 ≤ config.pingTimeout) (node : KNode) : node.active.Fresh config :=
  fresh_new h node.id node.id

-- A tick does not wrap around where no node stays for so long.
theorem Idle.tick (h : node.Idle config id ticks) (hf : node.tick.Fresh config) :
    node.tick.Idle config id (ticks + 1) where
  fresh := hf
  idle hi := by
    have hn : (node.ticksLast + 1).toNat = node.ticksLast.toNat + 1 := by
      have hlt := UInt32.lt_iff_toNat_lt.mp h.fresh
      have hle := config.pingTimeout.toNat_lt
      rw [UInt32.toNat_add, UInt32.toNat_one]
      omega
    exact hn ▸ Nat.succ_le_succ (h.idle hi)

theorem Idle.active (h : 1 ≤ config.pingTimeout) (hn : node.id ≠ id) :
    node.active.Idle config id ticks where
  fresh   := fresh_active h node
  idle hi := absurd hi hn

end KNode

namespace KBucket

-- The active nodes have the one property, and the nodes in the cache the other one.
structure Holds (p q : KNode → Prop) (b : KBucket) : Prop where
  active : ∀ node ∈ b.active, p node
  cache  : ∀ node ∈ b.cache, q node

variable {p q p' q' : KNode → Prop} {b b' : KBucket} {node : KNode} {nodes : List KNode}
  {id : NodeID} {ids : TickIDs}

theorem Holds.new (config : Kademlia.Config) : (KBucket.new config).Holds p q := by
  constructor <;> simp [KBucket.new]

theorem Holds.newRoot (config : Kademlia.Config) : (KBucket.newRoot config).Holds p q := by
  constructor <;> simp [KBucket.newRoot]

theorem Holds.addNode (h : b.Holds p q) (hq : q node) : (b.addNode node).Holds p q := by
  unfold KBucket.addNode
  split
  case isFalse => exact h
  case isTrue =>
    refine ⟨h.active, fun kn hm => ?_⟩
    rcases List.mem_append.mp hm with hm | hm
    · exact h.cache kn hm
    · exact List.mem_singleton.mp hm ▸ hq

theorem Holds.addNodes (h : b.Holds p q) (hq : ∀ node ∈ nodes, q node) :
    (b.addNodes nodes).Holds p q := by
  induction nodes generalizing b
  case nil => exact h
  case cons node rest hi =>
    have ha := h.addNode <| hq node List.mem_cons_self
    exact hi ha fun kn hm => hq kn <| List.mem_cons_of_mem _ hm

theorem Holds.sortByDepth (h : b.Holds p q) (hp : p node) {cache : List KNode}
    (hc : ∀ node ∈ cache, q node) :
    Holds p q { b with active := KBucket.sortByDepth (b.active ++ [node]), cache } where
  cache := hc
  active kn hm := by
    rcases List.mem_append.mp <| (sortByDepth_perm _).mem_iff.mp hm with hm | hm
    · exact h.active kn hm
    · exact List.mem_singleton.mp hm ▸ hp

-- An active node may end up in the cache.
theorem Holds.addNodeActive (h : b.Holds p q) (hpq : ∀ node, p node → q node) (hp : p node) :
    (b.addNodeActive node).Holds p q := by
  unfold KBucket.addNodeActive
  split <;> [skip; split]
  case isTrue          => exact h.sortByDepth hp h.cache
  case isFalse.isFalse => exact h
  case isFalse.isTrue =>
    refine ⟨h.active, fun kn hm => ?_⟩
    rcases List.mem_append.mp hm with hm | hm
    · exact h.cache kn hm
    · exact List.mem_singleton.mp hm ▸ hpq node hp

theorem Holds.addNodesActive (h : b.Holds p q) (hpq : ∀ node, p node → q node)
    (hp : ∀ node ∈ nodes, p node) : (b.addNodesActive nodes).Holds p q := by
  induction nodes generalizing b
  case nil => exact h
  case cons node rest hi =>
    refine hi (h.addNodeActive hpq <| hp node List.mem_cons_self) fun kn hm => ?_
    exact hp kn <| List.mem_cons_of_mem _ hm

theorem Holds.removeNode (h : b.Holds p q) (id : NodeID) : (b.removeNode id).Holds p q where
  active node hm := h.active node (List.mem_filter.mp hm).left
  cache node hm  := h.cache node (List.mem_filter.mp hm).left

theorem Holds.removeAllNodesAtDepth (h : b.Holds p q) (depth : Nat) :
    (b.removeAllNodesAtDepth depth).1.Holds p q ∧
      (∀ node ∈ (b.removeAllNodesAtDepth depth).2.1, p node) ∧
      ∀ node ∈ (b.removeAllNodesAtDepth depth).2.2, q node := by
  have hmoved {r : KNode → Prop} {nodes : List KNode} (n : Nat) (hr : ∀ node ∈ nodes, r node) :
      ∀ node ∈ (moveAtDepth depth n nodes).2, r node := fun node hm =>
    hr node <| (moved_moveAtDepth ..).perm.mem_iff.mp <| List.mem_append_right _ hm
  refine ⟨⟨fun node hm => ?_, fun node hm => ?_⟩, hmoved _ h.active, hmoved _ h.cache⟩
  · exact h.active node <| (moved_moveAtDepth ..).sublist.subset hm
  · exact h.cache node <| (moved_moveAtDepth ..).sublist.subset hm

theorem mem_modify_active {i : Nat} (hm : node ∈ nodes.modify i KNode.active) :
    node ∈ nodes ∨ ∃ kn, nodes[i]? = some kn ∧ node = kn.active := by
  have ⟨j, hj⟩ := List.mem_iff_getElem?.mp hm
  rw [List.getElem?_modify] at hj
  obtain ⟨kn, hk, he⟩ := Option.map_eq_some_iff.mp hj
  by_cases hi : i = j
  case pos => exact .inr ⟨kn, hi ▸ hk, by simpa [hi] using he.symm⟩
  case neg => exact .inl <| List.mem_of_getElem? <| hk.trans <| by simpa [hi] using he

theorem Holds.nodeActive (h : b.Holds p q) (hpq : ∀ node, p node → q node)
    (ha : ∀ node, q node → node.id = id → p node.active) : (b.nodeActive id).1.Holds p q := by
  unfold KBucket.nodeActive
  split
  case h_1 i hi =>
    refine ⟨fun node hm => ?_, h.cache⟩
    rcases mem_modify_active hm with hm | ⟨kn, hk, rfl⟩
    · exact h.active node hm
    · have ⟨hlt, hid, _⟩ := List.findIdx?_eq_some_iff_getElem.mp hi
      obtain ⟨_, rfl⟩ := List.getElem?_eq_some_iff.mp hk
      exact ha _ (hpq _ <| h.active _ <| List.getElem_mem hlt) (by simpa using hid)
  case h_2 =>
    split
    case h_2 => exact h
    case h_1 kn hf =>
      have hp : p kn.active :=
        ha kn (h.cache kn <| List.mem_of_find?_eq_some hf) (by simpa using List.find?_some hf)
      have hc : ∀ node ∈ b.cache.eraseP (·.id == id), q node := fun node hm =>
        h.cache node <| List.mem_of_mem_eraseP hm
      dsimp only
      split
      case isTrue  => exact h.sortByDepth hp hc
      case isFalse =>
        refine ⟨h.active, fun node hm => ?_⟩
        rcases List.mem_append.mp hm with hm | hm
        · exact hc node hm
        · exact List.mem_singleton.mp hm ▸ hpq _ hp

theorem foldl_removeNode (ids : List NodeID) (b : KBucket) :
    ids.foldl KBucket.removeNode b =
      { b with
        active := b.active.filter fun kn => kn.id ∉ ids
        cache  := b.cache.filter fun kn => kn.id ∉ ids } := by
  induction ids generalizing b
  case nil => simp
  case cons id ids hi =>
    have hf (nodes : List KNode) : (nodes.filter fun kn => kn.id ≠ id).filter (·.id ∉ ids) =
        nodes.filter fun kn => kn.id ∉ id :: ids := by
      rw [List.filter_filter]
      refine List.filter_congr fun kn _ => ?_
      simp [Bool.and_comm]
    rw [List.foldl_cons, hi, KBucket.removeNode, hf, hf]

-- A tick advances the clocks of the active nodes and of the first nodes in the cache, and removes
-- those of them which are expired.
structure Ticked (b : KBucket) (n : Nat) (ids : TickIDs) (b' : KBucket) : Prop where
  active  : b'.active = (b.active.map KNode.tick).filter fun kn => kn.id ∉ ids.deleted
  cache   : b'.cache =
    ((b.cache.take n).map KNode.tick ++ b.cache.drop n).filter fun kn => kn.id ∉ ids.deleted
  deleted : ids.deleted =
    (((b.active ++ b.cache.take n).map KNode.tick).filter (KNode.isExpired b.config)).map KNode.id

theorem ticked_fillup (h : b.tick = some (b', ids)) :
    ∃ n, (b.isRoot = true → n = b.cache.length) ∧ Ticked b n ids b' := by
  simp only [tick, tickActive, tickCache, Option.bind_eq_bind, Option.pure_def,
    Option.bind_eq_some_iff, Option.some.injEq, Prod.mk.injEq, Prod.exists, List.splitAt_eq] at h
  obtain ⟨b₁, ids₁, ⟨_, _, rfl, rfl⟩, b₂, ids₂, ⟨n, hn, _, _, rfl, rfl⟩, rfl, rfl⟩ := h
  refine ⟨n, fun hr => ?_, ?_, ?_, ?_⟩
  · simpa [fillupNodes, hr] using hn.symm
  · rw [foldl_removeNode]
  · rw [foldl_removeNode]
  · simp [TickIDs.extend]

theorem ticked_of_tick (h : b.tick = some (b', ids)) : ∃ n, Ticked b n ids b' := by
  have ⟨n, _, ht⟩ := ticked_fillup h
  exact ⟨n, ht⟩

theorem Ticked.fresh {n : Nat} (h : Ticked b n ids b') (hm : node ∈ b.active ++ b.cache.take n)
    (hn : node.id ∉ ids.deleted) : node.tick.Fresh b.config := by
  refine KNode.not_isExpired.mp <| Bool.eq_false_iff.mpr fun he => hn ?_
  rw [h.deleted]
  exact List.mem_map.mpr ⟨node.tick, List.mem_filter.mpr ⟨List.mem_map_of_mem hm, he⟩, rfl⟩

-- The nodes which stay are not expired, unless they were not ticked.
theorem Holds.tick (h : b.Holds p q) (ht : b.tick = some (b', ids))
    (hp : ∀ node, p node → node.tick.Fresh b.config → p' node.tick)
    (hq : ∀ node, q node → node.tick.Fresh b.config → q' node.tick)
    (hq' : ∀ node, q node → q' node) : b'.Holds p' q' := by
  have ⟨n, ht⟩ := ticked_of_tick ht
  constructor
  case active =>
    intro node hm
    rw [ht.active] at hm
    obtain ⟨hm, hn⟩ := List.mem_filter.mp hm
    obtain ⟨kn, hk, rfl⟩ := List.mem_map.mp hm
    exact hp kn (h.active kn hk) <| ht.fresh (List.mem_append_left _ hk) (of_decide_eq_true hn)
  case cache =>
    intro node hm
    rw [ht.cache] at hm
    obtain ⟨hm, hn⟩ := List.mem_filter.mp hm
    rcases List.mem_append.mp hm with hm | hm
    · obtain ⟨kn, hk, rfl⟩ := List.mem_map.mp hm
      refine hq kn (h.cache kn <| List.mem_of_mem_take hk) ?_
      exact ht.fresh (List.mem_append_right _ hk) (of_decide_eq_true hn)
    · exact hq' node <| h.cache node <| List.mem_of_mem_drop hm

def nodeIds (b : KBucket) : List NodeID :=
  b.nodes.map KNode.id

theorem mem_nodeIds_tick (h : b.tick = some (b', ids)) (id : NodeID) :
    (id ∈ b'.nodeIds ↔ id ∈ b.nodeIds ∧ id ∉ ids.deleted) ∧
    (id ∈ ids.deleted → id ∈ b.nodeIds) := by
  have ⟨n, ht⟩ := ticked_of_tick h
  have hnodes : b'.nodes = (b.active.map KNode.tick ++ ((b.cache.take n).map KNode.tick ++
      b.cache.drop n)).filter fun kn => kn.id ∉ ids.deleted := by
    rw [nodes, ht.active, ht.cache, ← List.filter_append]
  have hids : (b.active.map KNode.tick ++ ((b.cache.take n).map KNode.tick ++
      b.cache.drop n)).map KNode.id = b.nodeIds := by
    have hid : KNode.id ∘ KNode.tick = KNode.id := rfl
    rw [List.map_append, List.map_append, List.map_map, List.map_map, hid, ← List.map_append,
      List.take_append_drop, ← List.map_append]
    rfl
  constructor
  case left =>
    rw [← hids, nodeIds, hnodes]
    constructor
    case mp =>
      intro hm
      obtain ⟨kn, hk, rfl⟩ := List.mem_map.mp hm
      obtain ⟨hk, hn⟩ := List.mem_filter.mp hk
      exact ⟨List.mem_map_of_mem hk, by simpa using hn⟩
    case mpr =>
      rintro ⟨hm, hn⟩
      obtain ⟨kn, hk, rfl⟩ := List.mem_map.mp hm
      exact List.mem_map_of_mem <| List.mem_filter.mpr ⟨hk, by simpa using hn⟩
  case right =>
    intro hm
    rw [ht.deleted] at hm
    obtain ⟨_, he, rfl⟩ := List.mem_map.mp hm
    obtain ⟨kn, hk, rfl⟩ := List.mem_map.mp (List.mem_filter.mp he).left
    refine List.mem_map.mpr ⟨kn, ?_, rfl⟩
    exact (List.Sublist.append_left (List.take_sublist ..) _).subset hk

end KBucket

namespace Kademlia

structure Holds (p q : KNode → Prop) (t : Kademlia) : Prop where
  buckets    : ∀ b ∈ t.buckets, b.Holds p q
  rootBucket : t.rootBucket.Holds p q

variable {p q p' q' : KNode → Prop} {t t' : Kademlia} {b : KBucket} {id root : NodeID}
  {config : Config} {fuel : Nat} {op : Op} {ops : List Op} {ids : TickIDs}

theorem Holds.new (root : NodeID) (config : Config) : (Kademlia.new root config).Holds p q where
  buckets _ hm := by cases hm
  rootBucket   := .newRoot config

theorem Holds.setBucket {d : Nat} (h : t.Holds p q) (hb : b.Holds p q) :
    Holds p q { t with buckets := t.buckets.set d b } where
  rootBucket := h.rootBucket
  buckets c hm := by
    rcases List.mem_or_eq_of_mem_set hm with hm | rfl
    · exact h.buckets c hm
    · exact hb

theorem Holds.splitRootBucket (h : t.Holds p q) (hpq : ∀ node, p node → q node) :
    t.splitRootBucket.Holds p q := by
  have ⟨hb, ha, hc⟩ := h.rootBucket.removeAllNodesAtDepth t.buckets.length
  constructor
  case rootBucket => exact hb
  case buckets =>
    intro b hm
    rcases List.mem_append.mp hm with hm | hm
    · exact h.buckets b hm
    · rw [List.mem_singleton.mp hm]
      exact ((KBucket.Holds.new t.config).addNodesActive hpq ha).addNodes hc

theorem Holds.mergeLastBucket (h : t.Holds p q) (hpq : ∀ node, p node → q node) :
    t.mergeLastBucket.Holds p q := by
  rcases List.eq_nil_or_concat' t.buckets with hb | ⟨bs, b, hb⟩
  · simpa [Kademlia.mergeLastBucket, hb] using h
  · have hlast := h.buckets b (by simp [hb])
    rw [mergeLastBucket_eq hb]
    constructor
    case rootBucket => exact (h.rootBucket.addNodesActive hpq hlast.active).addNodes hlast.cache
    case buckets    => exact fun c hm => h.buckets c (by simp [hb, hm])

theorem Holds.rebalanceOverflow (h : t.Holds p q) (hpq : ∀ node, p node → q node)
    (hr : t.rebalanceOverflow fuel = some t') : t'.Holds p q :=
  (Loop.Exits.invariant ⟨fuel, hr⟩ h fun _ _ hs => hs.splitRootBucket hpq).left

theorem Holds.rebalanceWanting (h : t.Holds p q) (hpq : ∀ node, p node → q node)
    (hr : t.rebalanceWanting fuel = some t') : t'.Holds p q :=
  (Loop.Exits.invariant ⟨fuel, hr⟩ h fun _ _ hs => hs.mergeLastBucket hpq).left

theorem Holds.addNode (h : t.Holds p q) (hpq : ∀ node, p node → q node)
    (hn : ∀ root, q (.new root id)) (ha : t.addNode fuel id = some t') : t'.Holds p q := by
  unfold Kademlia.addNode at ha
  split at ha
  case isTrue => cases ha; exact h
  case isFalse =>
    cases hb : t.buckets[(KNode.new t.root id).depth]? <;> simp only [hb] at ha
    case some b =>
      cases ha
      exact h.setBucket <| (h.buckets b <| List.mem_of_getElem? hb).addNode (hn _)
    case none =>
      have hs : Holds p q { t with rootBucket := t.rootBucket.addNode (.new t.root id) } :=
        ⟨h.buckets, h.rootBucket.addNode (hn _)⟩
      split at ha
      case isTrue  => exact hs.rebalanceOverflow hpq ha
      case isFalse => cases ha; exact hs

theorem Holds.addNodes {ids : List NodeID} (h : t.Holds p q) (hpq : ∀ node, p node → q node)
    (hn : ∀ id ∈ ids, ∀ root, q (.new root id)) (ha : t.addNodes fuel ids = some t') :
    t'.Holds p q := by
  induction ids generalizing t
  case nil => cases ha; exact h
  case cons id ids hi =>
    have ⟨_, hs, ha⟩ := Option.bind_eq_some_iff.mp ha
    have hs := h.addNode hpq (hn id List.mem_cons_self) hs
    exact hi hs (fun id hm => hn id <| List.mem_cons_of_mem _ hm) ha

theorem Holds.removeNode (h : t.Holds p q) (hpq : ∀ node, p node → q node)
    (hr : t.removeNode fuel id = some t') : t'.Holds p q := by
  cases hb : t.buckets[KNode.getDepth t.root id]? <;>
    simp only [Kademlia.removeNode, KNode.new, hb] at hr
  case some b =>
    cases hr
    exact h.setBucket <| (h.buckets b <| List.mem_of_getElem? hb).removeNode id
  case none =>
    have hs : Holds p q { t with rootBucket := t.rootBucket.removeNode id } :=
      ⟨h.buckets, h.rootBucket.removeNode id⟩
    split at hr
    case isTrue  => exact hs.rebalanceWanting hpq hr
    case isFalse => cases hr; exact hs

theorem Holds.nodeDisconnected (h : t.Holds p q) (hpq : ∀ node, p node → q node)
    (hr : t.nodeDisconnected fuel id = some t') : t'.Holds p q := by
  cases hb : t.buckets[KNode.getDepth t.root id]? <;>
    simp only [Kademlia.nodeDisconnected, KNode.new, hb] at hr
  case none => cases hr; exact h
  case some b =>
    have hs := h.setBucket (d := KNode.getDepth t.root id) <|
      (h.buckets b <| List.mem_of_getElem? hb).removeNode id
    split at hr
    case isTrue  => exact hs.rebalanceWanting hpq hr
    case isFalse => cases hr; exact hs

theorem Holds.nodeActive (h : t.Holds p q) (hpq : ∀ node, p node → q node)
    (ha : ∀ node, q node → node.id = id → p node.active) : (t.nodeActive id).1.Holds p q := by
  cases hb : t.buckets[KNode.getDepth t.root id]? <;> simp only [Kademlia.nodeActive, hb]
  case some b => exact h.setBucket <| (h.buckets b <| List.mem_of_getElem? hb).nodeActive hpq ha
  case none   => exact ⟨h.buckets, h.rootBucket.nodeActive hpq ha⟩

-- A bucket of each, with what its tick returns.
theorem tick_eq_some_iff : t.tick = some (t', ids) ↔ ∃ ticked rootBucket ticks,
    t.buckets.mapM KBucket.tick = some ticked ∧ t.rootBucket.tick = some (rootBucket, ticks) ∧
      t' = { t with buckets := ticked.map Prod.fst, rootBucket } ∧
      ids = (ticked.map Prod.snd ++ [ticks]).foldl TickIDs.extend {} := by
  simp only [tick, Option.bind_eq_bind, Option.pure_def, Option.bind_eq_some_iff,
    Option.some.injEq, Prod.mk.injEq, Prod.exists, eq_comm (b := t'), eq_comm (b := ids)]
  grind

section

variable {bs : List KBucket} {ticked : List (KBucket × TickIDs)} {x : KBucket × TickIDs}

theorem exists_of_mem_ticked (h : List.Forall₂ (fun b x => b.tick = some x) bs ticked)
    (hm : x ∈ ticked) : ∃ b ∈ bs, b.tick = some x := by
  induction h
  case nil => cases hm
  case cons b y bs ticked hb _ hi =>
    rcases List.mem_cons.mp hm with rfl | hm
    · exact ⟨b, List.mem_cons_self, hb⟩
    · have ⟨c, hc, ht⟩ := hi hm
      exact ⟨c, List.mem_cons_of_mem _ hc, ht⟩

theorem deleted_foldl_extend (ids : TickIDs) (all : List TickIDs) :
    (all.foldl TickIDs.extend ids).deleted = ids.deleted ++ all.flatMap TickIDs.deleted := by
  induction all generalizing ids
  case nil              => simp
  case cons other _ hi  => simp [hi, TickIDs.extend]

-- What the buckets delete is what they lose, as no id is in two of them.
theorem mem_deleted_iff (h : List.Forall₂ (fun b x => b.tick = some x) bs ticked)
    (hn : (bs.flatMap KBucket.nodeIds).Nodup) (id : NodeID) :
    id ∈ ticked.flatMap (·.2.deleted) ↔
      id ∈ bs.flatMap KBucket.nodeIds ∧ id ∉ ticked.flatMap (·.1.nodeIds) := by
  induction h
  case nil => simp
  case cons b x bs ticked hb hf hi =>
    have ⟨hids, hdel⟩ := KBucket.mem_nodeIds_tick hb id
    have ⟨_, hn, hd⟩ := List.nodup_append.mp (List.flatMap_cons ▸ hn)
    have hi := hi hn
    -- The other buckets have none of the ids of this one.
    have hrest : id ∈ b.nodeIds → id ∉ ticked.flatMap (·.1.nodeIds) := by
      intro hm hr
      obtain ⟨y, hy, hr⟩ := List.mem_flatMap.mp hr
      have ⟨c, hc, ht⟩ := exists_of_mem_ticked hf hy
      have hc := List.mem_flatMap.mpr ⟨c, hc, (KBucket.mem_nodeIds_tick ht id).left.mp hr |>.left⟩
      exact hd id hm id hc rfl
    have hdisj : id ∈ b.nodeIds → id ∉ bs.flatMap KBucket.nodeIds := fun hm hc => hd id hm id hc rfl
    rw [List.flatMap_cons, List.flatMap_cons, List.flatMap_cons, List.mem_append, List.mem_append,
      List.mem_append, hids, hi]
    by_cases hm : id ∈ b.nodeIds
    case pos => simp [hm, hrest hm, hdisj hm]
    case neg => simp [hm, mt hdel hm]

end

theorem Holds.tick (h : t.Holds p q) (hv : t.Valid) (ht : t.tick = some (t', ids))
    (hp : ∀ node, p node → node.tick.Fresh t.config → p' node.tick)
    (hq : ∀ node, q node → node.tick.Fresh t.config → q' node.tick)
    (hq' : ∀ node, q node → q' node) : t'.Holds p' q' := by
  obtain ⟨ticked, rootBucket, ticks, hb, hr, rfl, _⟩ := tick_eq_some_iff.mp ht
  constructor
  case rootBucket =>
    have hc := hv.rootBucket.shaped.config_eq
    exact h.rootBucket.tick hr (hc ▸ hp) (hc ▸ hq) hq'
  case buckets =>
    intro b hm
    obtain ⟨x, hx, rfl⟩ := List.mem_map.mp hm
    have ⟨b, hm, hb⟩ := exists_of_mem_ticked (List.mapM_eq_some.mp hb) hx
    have ⟨d, hd⟩ := List.mem_iff_getElem?.mp hm
    have hc := (hv.bucket hd).shaped.config_eq
    exact (h.buckets b hm).tick hb (hc ▸ hp) (hc ▸ hq) hq'

theorem map_id_nodes (t : Kademlia) :
    t.nodes.map KNode.id = (t.buckets ++ [t.rootBucket]).flatMap KBucket.nodeIds := by
  rw [nodes, List.map_append, List.map_flatMap, List.flatMap_append, List.flatMap_singleton]
  rfl

-- The ids which a tick returns as deleted are the ones which it takes out of the table.
theorem Valid.mem_deleted (hv : t.Valid) (ht : t.tick = some (t', ids)) :
    id ∈ ids.deleted ↔ id ∈ t.nodes.map KNode.id ∧ id ∉ t'.nodes.map KNode.id := by
  obtain ⟨ticked, rootBucket, ticks, hb, hr, rfl, rfl⟩ := tick_eq_some_iff.mp ht
  have hf : List.Forall₂ (fun b x => b.tick = some x) (t.buckets ++ [t.rootBucket])
      (ticked ++ [(rootBucket, ticks)]) :=
    List.rel_append (List.mapM_eq_some.mp hb) (.cons hr .nil)
  have hm := mem_deleted_iff hf (map_id_nodes t ▸ hv.nodup_ids) id
  have he : ticked.map Prod.snd ++ [ticks] = (ticked ++ [(rootBucket, ticks)]).map Prod.snd := by
    simp
  have hb : ticked.map Prod.fst ++ [rootBucket] =
      (ticked ++ [(rootBucket, ticks)]).map Prod.fst := by
    simp
  rw [map_id_nodes, map_id_nodes, deleted_foldl_extend, he, hb, List.flatMap_map, List.flatMap_map]
  exact hm

theorem Holds.apply (h : t.Holds p q) (hpq : ∀ node, p node → q node)
    (hn : ∀ root id, q (.new root id))
    (ha : ∀ id, op = .nodeActive id → ∀ node, q node → node.id = id → p node.active)
    (ht : op ≠ .tick) (hop : t.apply fuel op = some t') : t'.Holds p q := by
  cases op
  case addNode id          => exact h.addNode hpq (hn · id) hop
  case addNodes ids        => exact h.addNodes hpq (fun id _ => (hn · id)) hop
  case removeNode id       => exact h.removeNode hpq hop
  case nodeDisconnected id => exact h.nodeDisconnected hpq hop
  case nodeActive id       => cases hop; exact h.nodeActive hpq (ha id rfl)
  case tick                => exact absurd rfl ht

-- The operations which make one table of another one, from the last one to the first one.
inductive Run (t : Kademlia) : List Op → Kademlia → Prop
  | nil : Run t [] t
  | cons {ops : List Op} {t' t'' : Kademlia} {op : Op} {fuel : Nat} :
    Run t ops t' → t'.apply fuel op = some t'' → Run t (op :: ops) t''

theorem Run.keeps (h : Run t ops t') (hv : t.Valid) : Keeps t t' := by
  induction h
  case nil           => exact .refl hv
  case cons _ ha hi  => exact hi.trans (keeps_apply hi.valid ha)

-- As long as a node is not active, all ticks of the run count for it.
theorem Run.idle (h : Run t ops t') (hv : t.Valid) (hto : 1 ≤ t.config.pingTimeout)
    (hf : t.Holds (KNode.Idle t.config id 0) (KNode.Fresh t.config))
    (hn : .nodeActive id ∉ ops) :
    t'.Holds (KNode.Idle t.config id (ops.count .tick)) (KNode.Fresh t.config) := by
  induction h
  case nil => exact hf
  case cons ops s s' op _ hr ha hi =>
    have hne := List.ne_of_not_mem_cons hn
    have hk := hr.keeps hv
    have hs := hi <| List.not_mem_of_not_mem_cons hn
    by_cases hop : op = .tick
    case neg =>
      have hc : (op :: ops).count .tick = ops.count .tick := List.count_cons_of_ne hop
      rw [hc]
      refine hs.apply (fun _ h => h.fresh) (KNode.fresh_new hto) ?_ hop ha
      rintro id' rfl node _ rfl
      exact .active hto fun he => hne <| congrArg Op.nodeActive he.symm
    case pos =>
      rw [hop, List.count_cons_self]
      obtain ⟨⟨_, ids⟩, ht, rfl⟩ := Option.map_eq_some_iff.mp <| hop ▸ ha
      refine hs.tick hk.valid ht (fun node h hx => ?_) (fun node _ hx => ?_) fun node h => h
      · exact h.tick <| hk.config ▸ hx
      · exact hk.config ▸ hx

theorem Holds.mono (h : t.Holds p q) (hp : ∀ node, p node → p' node)
    (hq : ∀ node, q node → q' node) : t.Holds p' q' where
  buckets b hm :=
    have hb := h.buckets b hm
    ⟨fun node hm => hp node (hb.active node hm), fun node hm => hq node (hb.cache node hm)⟩
  rootBucket   :=
    ⟨fun node hm => hp node (h.rootBucket.active node hm),
      fun node hm => hq node (h.rootBucket.cache node hm)⟩

theorem Holds.of_mem_nodes {node : KNode} (h : t.Holds p p) (hm : node ∈ t.nodes) : p node := by
  have hbucket {b : KBucket} (hb : b.Holds p p) (hm : node ∈ b.nodes) : p node :=
    (List.mem_append.mp hm).elim (hb.active node) (hb.cache node)
  rcases List.mem_append.mp hm with hm | hm
  · have ⟨b, hb, hm⟩ := List.mem_flatMap.mp hm
    exact hbucket (h.buckets b hb) hm
  · exact hbucket h.rootBucket hm

theorem Holds.of_mem_activeNodes (h : t.Holds p q) (hm : id ∈ t.activeNodes) :
    ∃ node, p node ∧ node.id = id := by
  have ⟨node, hn, hid⟩ := List.mem_map.mp hm
  rcases List.mem_append.mp hn with hn | hn
  · have ⟨b, hb, hn⟩ := List.mem_flatMap.mp hn
    exact ⟨node, (h.buckets b hb).active node hn, hid⟩
  · exact ⟨node, h.rootBucket.active node hn, hid⟩

theorem Reachable.fresh (h : Reachable root config t) (ht : 1 ≤ config.pingTimeout) :
    t.Holds (KNode.Fresh config) (KNode.Fresh config) := by
  induction h
  case new => exact .new root config
  case step t t' op hr ha hi =>
    by_cases hop : op = .tick
    case neg =>
      have hactive (node : KNode) := KNode.fresh_active ht node
      exact hi.apply (fun _ h => h) (KNode.fresh_new ht) (fun _ _ node _ _ => hactive node) hop ha
    case pos =>
      obtain ⟨_, ht, rfl⟩ := Option.map_eq_some_iff.mp <| hop ▸ ha
      have hc : t.config = config := hr.keeps.config
      exact hi.tick hr.keeps.valid ht (fun _ _ hx => hc ▸ hx) (fun _ _ hx => hc ▸ hx) fun _ h => h

-- A node which is not active during as many ticks as the timeout is in no active list any more. What
-- a tick returns as deleted is what it takes out of the table, and it leaves no node in it which
-- reached the timeout.
theorem Reachable.silent (hk : 1 ≤ config.k) (hp : 1 ≤ config.pingInterval)
    (ht : 1 ≤ config.pingTimeout) (h : Reachable root config t) :
    (∀ ops t' id, Run t ops t' → config.pingTimeout.toNat ≤ ops.count .tick →
      .nodeActive id ∉ ops → id ∉ t'.activeNodes) ∧
    (∃ t' ids, t.tick = some (t', ids) ∧
      (∀ id, id ∈ ids.deleted ↔ id ∈ t.nodes.map KNode.id ∧ id ∉ t'.nodes.map KNode.id) ∧
      ∀ node ∈ t'.nodes, node.ticksLast < config.pingTimeout) ∧
    ∀ op, ∃ fuel t', t.apply fuel op = some t' := by
  have ⟨hv, hr, hc⟩ := h.keeps
  have hc : t.config = config := hc
  subst hc
  have hp : t.config.pingInterval ≠ 0 := by grind
  refine ⟨?silent, ?tick, apply_eq_some hv hk hp⟩
  case silent =>
    intro ops t' id hrun hle hn hm
    have hf : t.Holds (KNode.Idle t.config id 0) (KNode.Fresh t.config) :=
      (h.fresh ht).mono (fun _ h => ⟨h, fun _ => Nat.zero_le _⟩) fun _ h => h
    obtain ⟨node, hi, rfl⟩ := (hrun.idle hv ht hf hn).of_mem_activeNodes hm
    exact absurd (UInt32.lt_iff_toNat_lt.mp hi.fresh) <| Nat.not_lt.mpr <| hle.trans (hi.idle rfl)
  case tick =>
    have ⟨t', ids, htick⟩ := tick_eq_some hv hp
    have hr' : Reachable root t.config t' :=
      h.step (show t.apply 0 .tick = some t' by simp [apply, htick])
    refine ⟨t', ids, htick, fun _ => hv.mem_deleted htick, fun _ hm => ?_⟩
    exact (hr'.fresh ht).of_mem_nodes hm

def hasty : Config where
  pingInterval := 1
  pingTimeout  := 2

-- A node which was active is forgotten after two ticks.
theorem silent_hasty : ∃ t t', Reachable .zero hasty t ∧ .ofPrefix [0x80] ∈ t.activeNodes ∧
    Run t [.tick, .tick] t' ∧ .ofPrefix [0x80] ∉ t'.activeNodes := by
  have hs : ((new .zero hasty).addNode 0 (.ofPrefix [0x80])).any fun t =>
      (t.nodeActive (.ofPrefix [0x80])).1.activeNodes.contains (.ofPrefix [0x80]) := by
    decide +kernel
  have ⟨t₀, h₀, hm⟩ := Option.any_eq_true _ _ |>.mp hs
  have hr₀ : Reachable .zero hasty t₀ :=
    .step .new (show (new .zero hasty).apply 0 (.addNode _) = t₀ from h₀)
  have hr : Reachable .zero hasty (t₀.nodeActive (.ofPrefix [0x80])).1 :=
    hr₀.step (show t₀.apply 0 (.nodeActive (.ofPrefix [0x80])) = _ from rfl)
  have ⟨hf, _, hop⟩ := hr.silent (by decide) (by decide) (by decide)
  have ⟨_, t₁, h₁⟩ := hop .tick
  have ⟨_, t₂, h₂⟩ := (hr.step h₁).silent (by decide) (by decide) (by decide) |>.right.right .tick
  have hrun : Run _ [.tick, .tick] t₂ := .cons (.cons .nil h₁) h₂
  exact ⟨_, t₂, hr, by simpa using hm, hrun, hf _ _ _ hrun (by decide) (by simp)⟩

end Kademlia
