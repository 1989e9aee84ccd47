import Fledger.DhtRouter.Delivery

namespace KBucket

variable {b : KBucket} {node : KNode} {ns : List KNode}

-- The root bucket takes all nodes.
theorem addNodesActive_root (h : b.isRoot = true) (ns : List KNode) :
    (b.addNodesActive ns).isRoot = true ∧ (b.addNodesActive ns).cache = b.cache ∧
      (b.addNodesActive ns).active.Perm (b.active ++ ns) := by
  induction ns generalizing b
  case nil             => exact ⟨h, rfl, by simp [addNodesActive]⟩
  case cons node ns hi =>
    have hb : b.addNodeActive node = { b with active := sortByDepth (b.active ++ [node]) } := by
      rw [addNodeActive, h, Bool.true_or, if_pos rfl]
    obtain ⟨hr, hc, ha⟩ := hi (b := b.addNodeActive node) (by rw [hb]; exact h)
    refine ⟨hr, hc.trans (by rw [hb]), ha.trans ?_⟩
    rw [hb]
    simpa using (sortByDepth_perm (b.active ++ [node])).append_right ns

theorem addNodes_root (h : b.isRoot = true) (ns : List KNode) :
    b.addNodes ns = { b with cache := b.cache ++ ns } := by
  induction ns generalizing b
  case nil             => simp [addNodes]
  case cons node ns hi =>
    have hb : b.addNode node = { b with cache := b.cache ++ [node] } := by
      rw [addNode, h, Bool.true_or, if_pos rfl]
    rw [addNodes, List.foldl_cons, ← addNodes, hb, hi (by exact h),
      List.append_assoc, List.singleton_append]

end KBucket

namespace Kademlia

variable {t t' : Kademlia} {id other : NodeID} {fuel : Nat}

-- The id is gone, and the others are where they were.
structure Removed (t : Kademlia) (id : NodeID) (t' : Kademlia) : Prop where
  notActive : id ∉ t'.activeNodes
  notCache  : id ∉ t'.cacheNodes
  active    : ∀ other ≠ id, other ∈ t'.activeNodes ↔ other ∈ t.activeNodes
  cache     : ∀ other ≠ id, other ∈ t'.cacheNodes ↔ other ∈ t.cacheNodes

-- The same nodes, maybe in other buckets.
structure Regrouped (t t' : Kademlia) : Prop where
  active : t'.activeNodes.Perm t.activeNodes
  cache  : t'.cacheNodes.Perm t.cacheNodes

theorem Regrouped.refl (t : Kademlia) : Regrouped t t :=
  ⟨.refl _, .refl _⟩

theorem Regrouped.trans {t₁ t₂ t₃ : Kademlia} (h₁ : Regrouped t₁ t₂) (h₂ : Regrouped t₂ t₃) :
    Regrouped t₁ t₃ :=
  ⟨h₂.active.trans h₁.active, h₂.cache.trans h₁.cache⟩

theorem Removed.regrouped {t₁ t₂ : Kademlia} (h : Removed t id t₁) (hr : Regrouped t₁ t₂) :
    Removed t id t₂ where
  notActive         := fun hm => h.notActive <| hr.active.mem_iff.mp hm
  notCache          := fun hm => h.notCache <| hr.cache.mem_iff.mp hm
  active other hne  := hr.active.mem_iff.trans (h.active other hne)
  cache other hne   := hr.cache.mem_iff.trans (h.cache other hne)

theorem Valid.regrouped_mergeLastBucket (h : t.Valid) : Regrouped t t.mergeLastBucket := by
  rcases List.eq_nil_or_concat' t.buckets with hb | ⟨bs, b, hb⟩
  case inl => simpa [Kademlia.mergeLastBucket, hb] using Regrouped.refl t
  case inr =>
    obtain ⟨hr, hc, ha⟩ := KBucket.addNodesActive_root h.rootBucket.shaped.isRoot_eq b.active
    rw [mergeLastBucket_eq hb, KBucket.addNodes_root hr]
    constructor
    case active =>
      simp only [activeNodes, hb, List.flatMap_append, List.flatMap_singleton, List.append_assoc]
      exact .map _ <| .append_left _ <| ha.trans List.perm_append_comm
    case cache  =>
      simp only [cacheNodes, hb, List.flatMap_append, List.flatMap_singleton, List.append_assoc, hc]
      exact .map _ <| .append_left _ List.perm_append_comm

theorem Valid.regrouped_rebalanceWanting (h : t.Valid) (hr : t.rebalanceWanting fuel = some t') :
    Regrouped t t' := by
  have ⟨⟨_, hg⟩, _⟩ := Loop.Exits.invariant (P := fun s => Keeps t s ∧ Regrouped t s) ⟨fuel, hr⟩
    ⟨.refl h, .refl t⟩ fun s _ ⟨hk, hs⟩ =>
      ⟨hk.trans (keeps_mergeLastBucket hk.valid), hs.trans hk.valid.regrouped_mergeLastBucket⟩
  exact hg

theorem exists_mem_set {bs : List KBucket} {d : Nat} {b : KBucket} {P : KBucket → Prop}
    (hd : d < bs.length) :
    (∃ c ∈ bs.set d b, P c) ↔ P b ∨ ∃ e c, e ≠ d ∧ bs[e]? = some c ∧ P c := by
  constructor
  case mp  =>
    rintro ⟨c, hc, hp⟩
    obtain ⟨e, he⟩ := List.mem_iff_getElem?.mp hc
    rw [List.getElem?_set] at he
    split at he
    case isTrue    => exact .inl (Option.some.inj he ▸ hp)
    case isFalse h => exact .inr ⟨e, c, Ne.symm h, he, hp⟩
  case mpr =>
    rintro (hp | ⟨e, c, hne, he, hp⟩)
    case inl => exact ⟨b, List.mem_set hd b, hp⟩
    case inr =>
      refine ⟨c, List.mem_iff_getElem?.mpr ⟨e, ?_⟩, hp⟩
      rw [List.getElem?_set_ne hne.symm, he]

-- The id is in a part of a bucket, in the active nodes or in the cache.
def Lists (f : KBucket → List KNode) (t : Kademlia) (id : NodeID) : Prop :=
  (∃ b ∈ t.buckets, id ∈ (f b).map KNode.id) ∨ id ∈ (f t.rootBucket).map KNode.id

theorem mem_activeNodes_iff_lists : id ∈ t.activeNodes ↔ t.Lists KBucket.active id := by
  rw [activeNodes, List.map_append, List.mem_append, List.map_flatMap, List.mem_flatMap]
  rfl

theorem mem_cacheNodes_iff_lists : id ∈ t.cacheNodes ↔ t.Lists KBucket.cache id := by
  rw [cacheNodes, List.map_append, List.mem_append, List.map_flatMap, List.mem_flatMap]
  rfl

section

variable {f : KBucket → List KNode} {b : KBucket} {d : Nat}

theorem mem_filter_ids {nodes : List KNode} :
    other ∈ (nodes.filter fun kn => kn.id ≠ id).map KNode.id ↔
      other ≠ id ∧ other ∈ nodes.map KNode.id := by
  simp only [List.mem_map, List.mem_filter, decide_eq_true_eq]
  constructor
  case mp  =>
    rintro ⟨kn, ⟨hm, hne⟩, rfl⟩
    exact ⟨hne, kn, hm, rfl⟩
  case mpr =>
    rintro ⟨hne, kn, hm, rfl⟩
    exact ⟨kn, ⟨hm, hne⟩, rfl⟩

-- A node is only in the bucket of its depth.
theorem Valid.eq_of_mem_bucket (h : t.Valid) (hf : ∀ b, f b ⊆ b.nodes) (hd : t.buckets[d]? = some b)
    (hm : id ∈ (f b).map KNode.id) : KNode.getDepth t.root id = d := by
  obtain ⟨kn, hn, rfl⟩ := List.mem_map.mp hm
  have hp := (h.bucket hd).placed
  have hk : kn.key ∈ b.keys := List.mem_map_of_mem (hf b hn)
  exact (hp.depth hk).symm.trans (hp.inRange hk)

theorem Valid.le_of_mem_rootBucket (h : t.Valid) (hf : ∀ b, f b ⊆ b.nodes)
    (hm : id ∈ (f t.rootBucket).map KNode.id) : t.buckets.length ≤ KNode.getDepth t.root id := by
  obtain ⟨kn, hn, rfl⟩ := List.mem_map.mp hm
  have hk : kn.key ∈ t.rootBucket.keys := List.mem_map_of_mem (hf _ hn)
  exact h.rootBucket.placed.depth hk ▸ h.rootBucket.placed.inRange hk

theorem Valid.lists_setBucket (h : t.Valid) (hf : ∀ b, f b ⊆ b.nodes)
    (hr : ∀ b, f (b.removeNode id) = (f b).filter fun kn => kn.id ≠ id)
    (hb : t.buckets[KNode.getDepth t.root id]? = some b) :
    Lists f { t with buckets := t.buckets.set (KNode.getDepth t.root id) (b.removeNode id) } other ↔
      other ≠ id ∧ Lists f t other := by
  obtain ⟨hd, he⟩ := List.getElem?_eq_some_iff.mp hb
  have hs : t.buckets = t.buckets.set (KNode.getDepth t.root id) b := by
    rw [← he, List.set_getElem_self]
  have hother : (∃ e c, e ≠ KNode.getDepth t.root id ∧ t.buckets[e]? = some c ∧
      other ∈ (f c).map KNode.id) → other ≠ id := by
    rintro ⟨e, c, hne, hc, hm⟩ rfl
    exact hne (h.eq_of_mem_bucket hf hc hm).symm
  have hroot : other ∈ (f t.rootBucket).map KNode.id → other ≠ id := by
    rintro hm rfl
    exact absurd (h.le_of_mem_rootBucket hf hm) (Nat.not_le.mpr hd)
  unfold Lists
  rw [hs]
  dsimp only
  rw [List.set_set, exists_mem_set hd, exists_mem_set hd, hr, mem_filter_ids, and_or_left,
    and_or_left, and_iff_right_of_imp hother, and_iff_right_of_imp hroot]

theorem Valid.lists_setRootBucket (h : t.Valid) (hf : ∀ b, f b ⊆ b.nodes)
    (hr : ∀ b, f (b.removeNode id) = (f b).filter fun kn => kn.id ≠ id)
    (hb : t.buckets.length ≤ KNode.getDepth t.root id) :
    Lists f { t with rootBucket := t.rootBucket.removeNode id } other ↔
      other ≠ id ∧ Lists f t other := by
  have hother : (∃ b ∈ t.buckets, other ∈ (f b).map KNode.id) → other ≠ id := by
    rintro ⟨b, hm, hi⟩ rfl
    obtain ⟨d, hd⟩ := List.mem_iff_getElem?.mp hm
    have hlt := (List.getElem?_eq_some_iff.mp hd).choose
    exact absurd (h.eq_of_mem_bucket hf hd hi) (by omega)
  unfold Lists
  dsimp only
  rw [hr, mem_filter_ids, and_or_left, and_iff_right_of_imp hother]

end

theorem active_subset (b : KBucket) : b.active ⊆ b.nodes :=
  List.subset_append_left ..

theorem cache_subset (b : KBucket) : b.cache ⊆ b.nodes :=
  List.subset_append_right ..

theorem removed_of_lists
    (ha : ∀ other, t'.Lists KBucket.active other ↔ other ≠ id ∧ t.Lists KBucket.active other)
    (hc : ∀ other, t'.Lists KBucket.cache other ↔ other ≠ id ∧ t.Lists KBucket.cache other) :
    Removed t id t' where
  notActive        := by simp [mem_activeNodes_iff_lists, ha]
  notCache         := by simp [mem_cacheNodes_iff_lists, hc]
  active other hne := by simp [mem_activeNodes_iff_lists, ha, hne]
  cache other hne  := by simp [mem_cacheNodes_iff_lists, hc, hne]

theorem Valid.removed_setBucket {b : KBucket} (h : t.Valid)
    (hb : t.buckets[KNode.getDepth t.root id]? = some b) :
    Removed t id
      { t with buckets := t.buckets.set (KNode.getDepth t.root id) (b.removeNode id) } :=
  removed_of_lists (fun _ => h.lists_setBucket active_subset (fun _ => rfl) hb)
    fun _ => h.lists_setBucket cache_subset (fun _ => rfl) hb

theorem Valid.removed_setRootBucket (h : t.Valid)
    (hb : t.buckets[KNode.getDepth t.root id]? = none) :
    Removed t id { t with rootBucket := t.rootBucket.removeNode id } := by
  have hl := List.getElem?_eq_none_iff.mp hb
  exact removed_of_lists (fun _ => h.lists_setRootBucket active_subset (fun _ => rfl) hl)
    fun _ => h.lists_setRootBucket cache_subset (fun _ => rfl) hl

theorem Valid.removed_removeNode (h : t.Valid) (hr : t.removeNode fuel id = some t') :
    Removed t id t' := by
  cases hb : t.buckets[KNode.getDepth t.root id]? <;>
    simp only [removeNode, KNode.new, hb] at hr
  case some b => cases hr; exact h.removed_setBucket hb
  case none   =>
    have hs := h.removed_setRootBucket hb
    split at hr
    case isTrue  =>
      exact hs.regrouped <|
        (h.setRootBucket (h.rootBucket.removeNode id)).regrouped_rebalanceWanting hr
    case isFalse => cases hr; exact hs

-- Without a bucket for its depth, a node can only be in the root bucket.
theorem Valid.lists_iff_rootBucket {f : KBucket → List KNode} (h : t.Valid)
    (hf : ∀ b, f b ⊆ b.nodes) (hb : t.buckets[KNode.getDepth t.root id]? = none) :
    t.Lists f id ↔ id ∈ (f t.rootBucket).map KNode.id := by
  refine or_iff_right ?_
  rintro ⟨b, hm, hi⟩
  obtain ⟨d, hd⟩ := List.mem_iff_getElem?.mp hm
  rw [h.eq_of_mem_bucket hf hd hi, hd] at hb
  cases hb

theorem Valid.removed_self_iff (h : t.Valid) (hb : t.buckets[KNode.getDepth t.root id]? = none) :
    Removed t id t ↔ id ∉ t.rootBucket.nodes.map KNode.id := by
  rw [KBucket.nodes, List.map_append, List.mem_append, not_or,
    ← h.lists_iff_rootBucket active_subset hb, ← h.lists_iff_rootBucket cache_subset hb,
    ← mem_activeNodes_iff_lists, ← mem_cacheNodes_iff_lists]
  constructor
  case mp  => exact fun hr => ⟨hr.notActive, hr.notCache⟩
  case mpr => exact fun hn => ⟨hn.left, hn.right, fun _ _ => .rfl, fun _ _ => .rfl⟩

theorem Valid.removed_nodeDisconnected_iff (h : t.Valid)
    (hr : t.nodeDisconnected fuel id = some t') :
    Removed t id t' ↔ id ∉ t.rootBucket.nodes.map KNode.id := by
  cases hb : t.buckets[KNode.getDepth t.root id]? <;>
    simp only [nodeDisconnected, KNode.new, hb] at hr
  case none   =>
    cases hr
    exact h.removed_self_iff hb
  case some b =>
    have hs := h.removed_setBucket hb
    have hn : id ∉ t.rootBucket.nodes.map KNode.id := fun hm => by
      have hl := h.le_of_mem_rootBucket (f := KBucket.nodes) (fun _ => List.Subset.refl _) hm
      rw [List.getElem?_eq_none hl] at hb
      cases hb
    refine iff_of_true ?_ hn
    split at hr
    case isTrue  =>
      exact hs.regrouped <|
        (h.setBucket ((h.bucket hb).removeNode id)).regrouped_rebalanceWanting hr
    case isFalse => cases hr; exact hs

-- `remove_node` finds the node in any bucket, and `node_disconnected` only outside of the root
-- bucket.
theorem removed_iff (h : t.Valid) (id : NodeID) :
    (∃ fuel t', t.removeNode fuel id = some t' ∧ Removed t id t') ∧
      ((∃ fuel t', t.nodeDisconnected fuel id = some t' ∧ Removed t id t') ↔
        id ∉ t.rootBucket.nodes.map KNode.id) := by
  constructor
  case left  =>
    obtain ⟨fuel, t', hr⟩ := removeNode_eq_some t id
    exact ⟨fuel, t', hr, h.removed_removeNode hr⟩
  case right =>
    constructor
    case mp  =>
      rintro ⟨fuel, t', hr, hs⟩
      exact h.removed_nodeDisconnected_iff hr |>.mp hs
    case mpr =>
      intro hn
      obtain ⟨fuel, t', hr⟩ := nodeDisconnected_eq_some t id
      exact ⟨fuel, t', hr, h.removed_nodeDisconnected_iff hr |>.mpr hn⟩

def peer : NodeID :=
  .ofPrefix [0x80]

-- The table of a node which knows one other node.
def onePeer : Kademlia :=
  { new .zero {} with rootBucket := (KBucket.newRoot {}).addNode (.new .zero peer) }

theorem addNode_onePeer : (new .zero {}).addNode 0 peer = some onePeer := by
  have h : ((peer == U256.zero) = false ∧ (new .zero {}).hasNodeId peer = false) ∧
      onePeer.rootBucket.status ≠ .overflowing := by decide +kernel
  obtain ⟨⟨hr, hn⟩, hs⟩ := h
  have hc : (peer == (new .zero {}).root || (new .zero {}).hasNodeId peer) = false := by
    rw [hn, Bool.or_false]
    exact hr
  rw [addNode, hc, if_neg Bool.false_ne_true]
  change (if onePeer.rootBucket.status = .overflowing then onePeer.rebalanceOverflow 0
    else some onePeer) = some onePeer
  rw [if_neg hs]

theorem valid_onePeer : onePeer.Valid :=
  keeps_addNode (valid_new _ _) addNode_onePeer |>.valid

-- The node stays in the table when it is disconnected.
theorem not_removed_onePeer : (new .zero {}).addNode 0 peer = some onePeer ∧ onePeer.Valid ∧
    1 ≤ onePeer.config.k ∧ onePeer.nodeDisconnected 1 peer = some onePeer ∧
    peer ∈ onePeer.cacheNodes ∧ ¬Removed onePeer peer onePeer := by
  have hm : peer ∈ onePeer.cacheNodes := by decide +kernel
  exact ⟨addNode_onePeer, valid_onePeer, by decide, rfl, hm, fun hr => hr.notCache hm⟩

theorem removed_onePeer :
    (∃ fuel t', onePeer.removeNode fuel peer = some t' ∧ Removed onePeer peer t') ∧
      ∃ fuel t', onePeer.nodeDisconnected fuel (.ofPrefix [0x40]) = some t' ∧
        Removed onePeer (.ofPrefix [0x40]) t' :=
  ⟨(removed_iff valid_onePeer peer).left,
    (removed_iff valid_onePeer _).right.mpr (by decide +kernel)⟩

end Kademlia
