import Fledger.DhtRouter.Buckets
import Fledger.Lib.Traverse
import Mathlib.Data.List.Induction

-- The nodes of a bucket are where they belong.
structure KBucket.Valid (b : KBucket) (root : NodeID) (config : Kademlia.Config) (isRoot : Bool)
    (inRange : Nat → Prop) : Prop where
  shaped : b.Shaped config isRoot
  placed : Placed root inRange b.keys

namespace KBucket.Valid

variable {b b' : KBucket} {root id : NodeID} {config : Kademlia.Config} {isRoot : Bool}
  {p q : Nat → Prop}

theorem of_subperm (h : b.Valid root config isRoot p) (hs : b'.Shaped config isRoot)
    (hk : b'.keys.Subperm b.keys) : b'.Valid root config isRoot p where
  shaped := hs
  placed := h.placed.subperm hk

theorem addNode (h : b.Valid root config isRoot p) (hr : id ≠ root) (hn : b.hasNodeId id = false)
    (hp : p (KNode.getDepth root id)) : (b.addNode (.new root id)).Valid root config isRoot p where
  shaped := h.shaped.addNode _
  placed := by
    refine (h.placed.concat hr (fun hm => ?_) hp).subperm (keys_addNode b _)
    simp only [keys, List.map_map] at hm
    obtain ⟨kn, hm, he⟩ := List.mem_map.mp hm
    simp only [hasNodeId, List.any_eq_false] at hn
    exact hn kn hm <| beq_iff_eq.mpr he

theorem removeNode (h : b.Valid root config isRoot p) (id : NodeID) :
    (b.removeNode id).Valid root config isRoot p :=
  h.of_subperm (h.shaped.removeNode id) (keys_removeNode b id)

theorem nodeActive (h : b.Valid root config isRoot p) (id : NodeID) :
    (b.nodeActive id).1.Valid root config isRoot p :=
  h.of_subperm (h.shaped.nodeActive id) (keys_nodeActive b id).subperm

theorem tick {ids : TickIDs} (h : b.Valid root config isRoot p) (ht : b.tick = some (b', ids)) :
    b'.Valid root config isRoot p :=
  h.of_subperm (h.shaped.tick ht) (keys_tick ht)

end KBucket.Valid

namespace Kademlia

-- The invariant of the table: of the other nodes, the bucket `d` holds only some at depth `d`, and
-- the root bucket only some which are at least as deep as the number of buckets.
structure Valid (t : Kademlia) : Prop where
  bucket     : ∀ {d : Nat} {b : KBucket}, t.buckets[d]? = some b → b.Valid t.root t.config false (· = d)
  rootBucket : t.rootBucket.Valid t.root t.config true (t.buckets.length ≤ ·)

variable {t t' : Kademlia} {id root : NodeID} {config : Config} {fuel : Nat}

theorem valid_new (root : NodeID) (config : Config) : (new root config).Valid where
  bucket h   := by simp [new] at h
  rootBucket := ⟨KBucket.shaped_newRoot config, .nil ..⟩

theorem Valid.setBucket {d : Nat} {b : KBucket} (h : t.Valid)
    (hv : b.Valid t.root t.config false (· = d)) :
    Kademlia.Valid { t with buckets := t.buckets.set d b } where
  rootBucket := by simpa using h.rootBucket
  bucket {e c} he := by
    simp only [List.getElem?_set] at he
    split at he
    case isFalse => exact h.bucket he
    case isTrue hd =>
      split at he <;> cases he
      exact hd ▸ hv

theorem Valid.setRootBucket {b : KBucket} (h : t.Valid)
    (hv : b.Valid t.root t.config true (t.buckets.length ≤ ·)) :
    Kademlia.Valid { t with rootBucket := b } where
  rootBucket := hv
  bucket     := h.bucket

@[simp]
theorem root_splitRootBucket (t : Kademlia) : t.splitRootBucket.root = t.root :=
  rfl

@[simp]
theorem config_splitRootBucket (t : Kademlia) : t.splitRootBucket.config = t.config :=
  rfl

theorem length_splitRootBucket (t : Kademlia) :
    t.splitRootBucket.buckets.length = t.buckets.length + 1 := by
  simp [splitRootBucket]

theorem Valid.le_depth {node : KNode} (h : t.Valid) (hm : node ∈ t.rootBucket.nodes) :
    t.buckets.length ≤ node.depth :=
  h.rootBucket.placed.inRange <| List.mem_map_of_mem hm

theorem Valid.pushBucket {b rootBucket : KBucket} (h : t.Valid)
    (hb : b.Valid t.root t.config false (· = t.buckets.length))
    (hr : rootBucket.Valid t.root t.config true (t.buckets.length + 1 ≤ ·)) :
    Kademlia.Valid { t with buckets := t.buckets ++ [b], rootBucket } where
  rootBucket := by simpa using hr
  bucket {d c} hc := by
    simp only [List.getElem?_append] at hc
    split at hc
    case isTrue => exact h.bucket hc
    case isFalse hd =>
      rw [List.getElem?_singleton] at hc
      split at hc <;> cases hc
      obtain rfl : d = t.buckets.length := by omega
      exact hb

theorem Valid.splitRootBucket (h : t.Valid) (ho : t.rootBucket.status = .overflowing) :
    t.splitRootBucket.Valid := by
  have hs := KBucket.split_removeAllNodesAtDepth ho fun _ hm => h.le_depth hm
  have hr := h.rootBucket.shaped.removeAllNodesAtDepth t.buckets.length
  simp only [Kademlia.splitRootBucket]
  generalize t.rootBucket.removeAllNodesAtDepth t.buckets.length = removed at hs hr ⊢
  obtain ⟨rootBucket, active, cache⟩ := removed
  have hmoved := h.rootBucket.placed.subperm <|
    (List.sublist_append_right ..).subperm.trans hs.keys.subperm
  have hrest := h.rootBucket.placed.subperm <|
    (List.sublist_append_left ..).subperm.trans hs.keys.subperm
  refine h.pushBucket ?moved ⟨hr, hrest.mono ?rest⟩
  case rest =>
    intro key hm _
    obtain ⟨node, hn, rfl⟩ := List.mem_map.mp hm
    exact hs.rest node hn
  case moved =>
    refine ⟨((KBucket.shaped_new _).addNodesActive _).addNodes _, (hmoved.mono ?_).subperm ?_⟩
    · intro key hm _
      rw [← List.map_append] at hm
      obtain ⟨node, hn, rfl⟩ := List.mem_map.mp hm
      exact hs.moved node hn
    · refine (KBucket.keys_addNodes ..).trans ?_
      refine (List.subperm_append_right _).mpr ?_
      simpa [KBucket.keys, KBucket.nodes, KBucket.new] using
        KBucket.keys_addNodesActive (.new t.config) active

theorem keys_merge (rootBucket b : KBucket) :
    (rootBucket.addNodesActive b.active |>.addNodes b.cache).keys.Subperm
      (rootBucket.keys ++ b.keys) := by
  refine (KBucket.keys_addNodes ..).trans ?_
  have hk := KBucket.keys_addNodesActive rootBucket b.active
  have hk := (List.subperm_append_right (b.cache.map KNode.key)).mpr hk
  simpa [KBucket.keys, KBucket.nodes] using hk

-- Merging gives the nodes of the last bucket back to the root bucket.
theorem Valid.popBucket {b : KBucket} {bs : List KBucket} (h : t.Valid)
    (hb : t.buckets = bs ++ [b]) :
    Kademlia.Valid
      { t with
        buckets    := bs
        rootBucket := t.rootBucket.addNodesActive b.active |>.addNodes b.cache } := by
  have hlast := h.bucket (d := bs.length) (b := b) (by simp [hb])
  have hlen : t.buckets.length = bs.length + 1 := by simp [hb]
  constructor
  case bucket =>
    intro d c hc
    have hd := (List.getElem?_eq_some_iff.mp hc).choose
    exact h.bucket <| by rwa [hb, List.getElem?_append_left hd]
  case rootBucket =>
    refine ⟨(h.rootBucket.shaped.addNodesActive _).addNodes _, ?_⟩
    refine Placed.subperm (.append ?root ?last ?apart) (keys_merge t.rootBucket b)
    case root => exact h.rootBucket.placed.mono fun _ _ hd => Nat.le_of_succ_le (hlen.symm.trans_le hd)
    case last => exact hlast.placed.mono fun _ _ hd => hd.ge
    case apart =>
      intro key hm key' hm'
      have hd := h.rootBucket.placed.inRange hm
      have hd' := hlast.placed.inRange hm'
      omega

theorem mergeLastBucket_eq {b : KBucket} {bs : List KBucket} (hb : t.buckets = bs ++ [b]) :
    t.mergeLastBucket =
      { t with
        buckets    := bs
        rootBucket := t.rootBucket.addNodesActive b.active |>.addNodes b.cache } := by
  simp [mergeLastBucket, hb]

theorem Valid.mergeLastBucket (h : t.Valid) : t.mergeLastBucket.Valid := by
  rcases List.eq_nil_or_concat' t.buckets with hb | ⟨bs, b, hb⟩
  · simpa [Kademlia.mergeLastBucket, hb] using h
  · exact mergeLastBucket_eq hb ▸ h.popBucket hb

-- Only one id differs from another one in the last bit and in no other one.
theorem eq_of_getDepth_eq {a b : NodeID} (ha : a ≠ root) (hb : b ≠ root)
    (hda : 255 ≤ KNode.getDepth root a) (hdb : 255 ≤ KNode.getDepth root b) : a = b := by
  have hla := KNode.getDepth_lt root a
  have hlb := KNode.getDepth_lt root b
  have hlt := KNode.getDepth_lt a b
  have he : KNode.getDepth root a = KNode.getDepth root b := by omega
  refine (KNode.lt_getDepth_of_eq ha.symm hb.symm he).resolve_left ?_
  omega

theorem Valid.length_le_one (h : t.Valid) (hd : 255 ≤ t.buckets.length) :
    t.rootBucket.nodes.length ≤ 1 := by
  have hp := h.rootBucket.placed
  have hids : ∀ key ∈ t.rootBucket.keys, ∀ key' ∈ t.rootBucket.keys, key.1 = key'.1 := by
    intro key hm key' hm'
    refine eq_of_getDepth_eq (hp.notRoot hm) (hp.notRoot hm') ?_ ?_
    · exact hd.trans <| hp.depth hm ▸ hp.inRange hm
    · exact hd.trans <| hp.depth hm' ▸ hp.inRange hm'
  have hl : t.rootBucket.nodes.length = (t.rootBucket.keys.map Prod.fst).length := by
    simp [KBucket.keys]
  have hn := hp.nodup_ids
  rw [hl]
  cases hk : t.rootBucket.keys
  case nil           => simp
  case cons key keys =>
    rw [hk] at hids hn
    have hr : (key :: keys).map Prod.fst = List.replicate (key :: keys).length key.1 := by
      refine List.eq_replicate_iff.mpr ⟨List.length_map _, fun id hi => ?_⟩
      obtain ⟨key', hm, rfl⟩ := List.mem_map.mp hi
      exact hids key' hm key List.mem_cons_self
    rw [hr, List.nodup_replicate] at hn
    simpa using hn

theorem Valid.length_lt_of_overflowing (h : t.Valid) (hk : 1 ≤ t.config.k)
    (ho : t.rootBucket.status = .overflowing) : t.buckets.length < 255 := by
  have ⟨hl, _⟩ := KBucket.status_eq_overflowing.mp ho
  rw [h.rootBucket.shaped.config_eq] at hl
  refine Nat.lt_of_not_le fun hd => ?_
  have hone := h.length_le_one hd
  omega

-- What an operation keeps.
structure Keeps (t t' : Kademlia) : Prop where
  valid  : t'.Valid
  root   : t'.root = t.root
  config : t'.config = t.config

theorem Keeps.refl (h : t.Valid) : Keeps t t :=
  ⟨h, rfl, rfl⟩

theorem Keeps.trans {t₁ t₂ t₃ : Kademlia} (h₁ : Keeps t₁ t₂) (h₂ : Keeps t₂ t₃) : Keeps t₁ t₃ where
  valid  := h₂.valid
  root   := h₂.root.trans h₁.root
  config := h₂.config.trans h₁.config

theorem keeps_rebalanceOverflow (h : t.Valid) (hr : t.rebalanceOverflow fuel = some t') :
    Keeps t t' := by
  refine (Loop.Exits.invariant (P := Keeps t) ⟨fuel, hr⟩ (.refl h) fun s hg hs => ?_).left
  exact hs.trans ⟨hs.valid.splitRootBucket <| by simpa using hg, rfl, rfl⟩

theorem keeps_mergeLastBucket (h : t.Valid) : Keeps t t.mergeLastBucket := by
  refine ⟨h.mergeLastBucket, ?_, ?_⟩
  all_goals
    unfold mergeLastBucket
    split <;> rfl

theorem keeps_rebalanceWanting (h : t.Valid) (hr : t.rebalanceWanting fuel = some t') :
    Keeps t t' := by
  refine (Loop.Exits.invariant (P := Keeps t) ⟨fuel, hr⟩ (.refl h) fun s _ hs => ?_).left
  exact hs.trans <| keeps_mergeLastBucket hs.valid

-- There are only as many depths as an id has bits.
theorem rebalanceOverflow_eq_some (h : t.Valid) (hk : 1 ≤ t.config.k) :
    ∃ fuel t', t.rebalanceOverflow fuel = some t' := by
  have ⟨t', fuel, hr⟩ : Loop.Terminates (fun t => t.rootBucket.status == .overflowing)
      Kademlia.splitRootBucket t :=
    .of_variant (P := Keeps t) (fun s => 255 - s.buckets.length) (.refl h) fun s hg hs => by
      have ho : s.rootBucket.status = .overflowing := by simpa using hg
      have hlt := hs.valid.length_lt_of_overflowing (hs.config ▸ hk) ho
      refine ⟨hs.trans ⟨hs.valid.splitRootBucket ho, rfl, rfl⟩, ?_⟩
      rw [length_splitRootBucket]
      omega
  exact ⟨fuel, t', hr⟩

-- Every merge uses up a bucket.
theorem rebalanceWanting_eq_some (t : Kademlia) : ∃ fuel t', t.rebalanceWanting fuel = some t' := by
  have ⟨t', fuel, hr⟩ :
      Loop.Terminates (fun t => t.rootBucket.status == .wanting && !t.buckets.isEmpty)
        Kademlia.mergeLastBucket t :=
    .of_variant (P := fun _ => True) (fun s => s.buckets.length) trivial fun s hg _ => by
      rcases List.eq_nil_or_concat' s.buckets with hb | ⟨bs, b, hb⟩
      · simp [hb] at hg
      · simp [mergeLastBucket_eq hb, hb]
  exact ⟨fuel, t', hr⟩

theorem hasNodeId_eq_false (h : t.hasNodeId id = false) :
    (∀ b ∈ t.buckets, b.hasNodeId id = false) ∧ t.rootBucket.hasNodeId id = false := by
  simpa [hasNodeId] using h

theorem Valid.addNodeRoot (h : t.Valid) (hc : ¬ (id == t.root || t.hasNodeId id) = true)
    (hb : t.buckets[(KNode.new t.root id).depth]? = none) :
    Kademlia.Valid { t with rootBucket := t.rootBucket.addNode (.new t.root id) } := by
  have ⟨hr, hn⟩ : id ≠ t.root ∧ t.hasNodeId id = false := by simpa using hc
  have hd : t.buckets.length ≤ KNode.getDepth t.root id := List.getElem?_eq_none_iff.mp hb
  exact h.setRootBucket <| h.rootBucket.addNode hr (hasNodeId_eq_false hn).right hd

theorem keeps_addNode (h : t.Valid) (ha : t.addNode fuel id = some t') : Keeps t t' := by
  unfold addNode at ha
  split at ha
  case isTrue => cases ha; exact .refl h
  case isFalse hc =>
    cases hb : t.buckets[(KNode.new t.root id).depth]? <;> simp only [hb] at ha
    case some b =>
      have ⟨hr, hn⟩ : id ≠ t.root ∧ t.hasNodeId id = false := by simpa using hc
      have hn := (hasNodeId_eq_false hn).left b (List.mem_of_getElem? hb)
      cases ha
      exact ⟨h.setBucket ((h.bucket hb).addNode hr hn rfl), rfl, rfl⟩
    case none =>
      have hv := h.addNodeRoot hc hb
      split at ha
      case isTrue  => exact Keeps.trans ⟨hv, rfl, rfl⟩ (keeps_rebalanceOverflow hv ha)
      case isFalse => cases ha; exact ⟨hv, rfl, rfl⟩

theorem keeps_addNodes {ids : List NodeID} (h : t.Valid) (ha : t.addNodes fuel ids = some t') :
    Keeps t t' := by
  induction ids generalizing t
  case nil => cases ha; exact .refl h
  case cons id ids hi =>
    simp only [addNodes, List.foldlM_cons, Option.bind_eq_bind, Option.bind_eq_some_iff] at ha
    obtain ⟨s, hs, ha⟩ := ha
    have hk := keeps_addNode h hs
    exact hk.trans (hi hk.valid ha)

theorem keeps_removeNode (h : t.Valid) (hr : t.removeNode fuel id = some t') : Keeps t t' := by
  cases hb : t.buckets[KNode.getDepth t.root id]? <;> simp only [removeNode, KNode.new, hb] at hr
  case some b => cases hr; exact ⟨h.setBucket ((h.bucket hb).removeNode id), rfl, rfl⟩
  case none =>
    have hv := h.setRootBucket (h.rootBucket.removeNode id)
    split at hr
    case isTrue  => exact Keeps.trans ⟨hv, rfl, rfl⟩ (keeps_rebalanceWanting hv hr)
    case isFalse => cases hr; exact ⟨hv, rfl, rfl⟩

theorem keeps_nodeDisconnected (h : t.Valid) (hr : t.nodeDisconnected fuel id = some t') :
    Keeps t t' := by
  cases hb : t.buckets[KNode.getDepth t.root id]? <;>
    simp only [nodeDisconnected, KNode.new, hb] at hr
  case none => cases hr; exact .refl h
  case some b =>
    have hv := h.setBucket ((h.bucket hb).removeNode id)
    split at hr
    case isTrue  => exact Keeps.trans ⟨hv, rfl, rfl⟩ (keeps_rebalanceWanting hv hr)
    case isFalse => cases hr; exact ⟨hv, rfl, rfl⟩

theorem keeps_nodeActive (h : t.Valid) (id : NodeID) : Keeps t (t.nodeActive id).1 := by
  cases hb : t.buckets[KNode.getDepth t.root id]? <;> simp only [nodeActive, hb]
  case none   => exact ⟨h.setRootBucket (h.rootBucket.nodeActive id), rfl, rfl⟩
  case some b => exact ⟨h.setBucket ((h.bucket hb).nodeActive id), rfl, rfl⟩

theorem keeps_tick {ids : TickIDs} (h : t.Valid) (ht : t.tick = some (t', ids)) : Keeps t t' := by
  simp only [tick, Option.bind_eq_bind, Option.pure_def, Option.bind_eq_some_iff,
    Option.some.injEq, Prod.mk.injEq, Prod.exists] at ht
  obtain ⟨ticked, hb, rootBucket, _, hr, rfl, _⟩ := ht
  have hf := List.mapM_eq_some.mp hb
  refine ⟨⟨fun {d b'} hd => ?_, ?_⟩, rfl, rfl⟩
  · simp only [List.getElem?_map, Option.map_eq_some_iff] at hd
    obtain ⟨⟨b', ids⟩, hd, rfl⟩ := hd
    obtain ⟨hlt, he⟩ := List.getElem?_eq_some_iff.mp hd
    have hb := hf.get (hf.length_eq ▸ hlt) hlt
    simp only [List.get_eq_getElem, he] at hb
    exact (h.bucket (List.getElem?_eq_getElem _)).tick hb
  · simpa [hf.length_eq] using h.rootBucket.tick hr

theorem rebalanceOverflow_mono {n m : Nat} (h : t.rebalanceOverflow n = some t') (hle : n ≤ m) :
    t.rebalanceOverflow m = some t' :=
  Loop.run_mono h hle

theorem addNode_mono {n m : Nat} (h : t.addNode n id = some t') (hle : n ≤ m) :
    t.addNode m id = some t' := by
  unfold addNode at h ⊢
  split at h
  case isTrue hc => simpa [hc] using h
  case isFalse hc =>
    simp only [hc]
    cases hb : t.buckets[(KNode.new t.root id).depth]? <;> simp only [hb] at h
    case some b => simpa using h
    case none =>
      split at h
      case isTrue ho  => simpa [ho] using rebalanceOverflow_mono h hle
      case isFalse ho => simpa [ho] using h

theorem addNode_eq_some (h : t.Valid) (hk : 1 ≤ t.config.k) (id : NodeID) :
    ∃ fuel t', t.addNode fuel id = some t' := by
  by_cases hc : id == t.root || t.hasNodeId id
  case pos => exact ⟨0, t, by simp [addNode, hc]⟩
  case neg =>
    cases hb : t.buckets[(KNode.new t.root id).depth]?
    case some b => exact ⟨0, _, by simp only [addNode, hc, hb]; rfl⟩
    case none =>
      have ⟨fuel, t', ho⟩ := rebalanceOverflow_eq_some (h.addNodeRoot hc hb) hk
      refine ⟨fuel, ?_⟩
      simp only [addNode, hc, hb, Bool.false_eq_true, if_false]
      split <;> [exact ⟨t', ho⟩; exact ⟨_, rfl⟩]

theorem addNodes_mono {n m : Nat} {ids : List NodeID} (h : t.addNodes n ids = some t')
    (hle : n ≤ m) : t.addNodes m ids = some t' := by
  induction ids generalizing t
  case nil => exact h
  case cons id ids hi =>
    simp only [addNodes, List.foldlM_cons, Option.bind_eq_bind, Option.bind_eq_some_iff] at h ⊢
    obtain ⟨s, hs, h⟩ := h
    exact ⟨s, addNode_mono hs hle, hi h⟩

theorem addNodes_eq_some (h : t.Valid) (hk : 1 ≤ t.config.k) (ids : List NodeID) :
    ∃ fuel t', t.addNodes fuel ids = some t' := by
  induction ids generalizing t
  case nil => exact ⟨0, t, rfl⟩
  case cons id ids hi =>
    have ⟨n, s, hs⟩ := addNode_eq_some h hk id
    have hkeeps := keeps_addNode h hs
    have ⟨m, t', ht⟩ := hi hkeeps.valid (hkeeps.config ▸ hk)
    refine ⟨max n m, t', ?_⟩
    simp only [addNodes, List.foldlM_cons, addNode_mono hs (Nat.le_max_left n m)]
    exact addNodes_mono ht (Nat.le_max_right n m)

theorem removeNode_eq_some (t : Kademlia) (id : NodeID) :
    ∃ fuel t', t.removeNode fuel id = some t' := by
  cases hb : t.buckets[KNode.getDepth t.root id]?
  case some b => exact ⟨0, _, by simp only [removeNode, KNode.new, hb]; rfl⟩
  case none =>
    have ⟨fuel, t', ht⟩ :=
      rebalanceWanting_eq_some { t with rootBucket := t.rootBucket.removeNode id }
    refine ⟨fuel, ?_⟩
    simp only [removeNode, KNode.new, hb]
    split <;> simp [ht]

theorem nodeDisconnected_eq_some (t : Kademlia) (id : NodeID) :
    ∃ fuel t', t.nodeDisconnected fuel id = some t' := by
  cases hb : t.buckets[KNode.getDepth t.root id]?
  case none => exact ⟨0, t, by simp only [nodeDisconnected, KNode.new, hb]⟩
  case some b =>
    have ⟨fuel, t', ht⟩ := rebalanceWanting_eq_some
      { t with buckets := t.buckets.set (KNode.getDepth t.root id) (b.removeNode id) }
    refine ⟨fuel, ?_⟩
    simp only [nodeDisconnected, KNode.new, hb]
    split <;> simp [ht]

theorem tick_eq_some (h : t.Valid) (hp : t.config.pingInterval ≠ 0) :
    ∃ t' ids, t.tick = some (t', ids) := by
  have hbuckets : ∀ b ∈ t.buckets, ∃ b', b.tick = some b' := by
    intro b hm
    have ⟨d, hd⟩ := List.mem_iff_getElem?.mp hm
    have ⟨b', ids, hb⟩ := (h.bucket hd).shaped.tick_eq_some hp
    exact ⟨(b', ids), hb⟩
  have ⟨ticked, hb⟩ := List.exists_mapM_eq_some hbuckets
  have ⟨b', ids, hr⟩ := h.rootBucket.shaped.tick_eq_some hp
  simp [tick, hb, hr]

inductive Op
  | addNode (id : NodeID)
  | addNodes (ids : List NodeID)
  | removeNode (id : NodeID)
  | nodeDisconnected (id : NodeID)
  | nodeActive (id : NodeID)
  | tick
deriving DecidableEq

def apply (fuel : Nat) (t : Kademlia) : Op → Option Kademlia
  | .addNode id          => t.addNode fuel id
  | .addNodes ids        => t.addNodes fuel ids
  | .removeNode id       => t.removeNode fuel id
  | .nodeDisconnected id => t.nodeDisconnected fuel id
  | .nodeActive id       => (t.nodeActive id).1
  | .tick                => Prod.fst <$> t.tick

theorem keeps_apply {op : Op} (h : t.Valid) (ha : t.apply fuel op = some t') : Keeps t t' := by
  cases op
  case addNode          => exact keeps_addNode h ha
  case addNodes         => exact keeps_addNodes h ha
  case removeNode       => exact keeps_removeNode h ha
  case nodeDisconnected => exact keeps_nodeDisconnected h ha
  case nodeActive id    => cases ha; exact keeps_nodeActive h id
  case tick =>
    obtain ⟨_, ht, rfl⟩ := Option.map_eq_some_iff.mp ha
    exact keeps_tick h ht

theorem apply_eq_some (h : t.Valid) (hk : 1 ≤ t.config.k) (hp : t.config.pingInterval ≠ 0)
    (op : Op) : ∃ fuel t', t.apply fuel op = some t' := by
  cases op
  case addNode id          => exact addNode_eq_some h hk id
  case addNodes ids        => exact addNodes_eq_some h hk ids
  case removeNode id       => exact removeNode_eq_some t id
  case nodeDisconnected id => exact nodeDisconnected_eq_some t id
  case nodeActive id       => exact ⟨0, _, rfl⟩
  case tick =>
    have ⟨t', ids, ht⟩ := tick_eq_some h hp
    exact ⟨0, t', by simp [apply, ht]⟩

-- The tables of a node which the operations make of the empty one.
inductive Reachable (root : NodeID) (config : Config) : Kademlia → Prop
  | new : Reachable root config (.new root config)
  | step {fuel : Nat} {t t' : Kademlia} {op : Op} :
    Reachable root config t → t.apply fuel op = some t' → Reachable root config t'

theorem Reachable.keeps (h : Reachable root config t) : Keeps (.new root config) t := by
  induction h
  case new          => exact .refl (valid_new root config)
  case step ha hi   => exact hi.trans (keeps_apply hi.valid ha)

def nodes (t : Kademlia) : List KNode :=
  t.buckets.flatMap KBucket.nodes ++ t.rootBucket.nodes

theorem Valid.mem_nodes {node : KNode} (h : t.Valid) (hm : node ∈ t.nodes) :
    node.id ≠ t.root ∧ node.depth = KNode.getDepth t.root node.id := by
  rcases List.mem_append.mp hm with hm | hm
  case inl =>
    have ⟨b, hb, hm⟩ := List.mem_flatMap.mp hm
    have ⟨d, hd⟩ := List.mem_iff_getElem?.mp hb
    have hp := (h.bucket hd).placed
    exact ⟨hp.notRoot <| List.mem_map_of_mem hm, hp.depth <| List.mem_map_of_mem hm⟩
  case inr =>
    have hp := h.rootBucket.placed
    exact ⟨hp.notRoot <| List.mem_map_of_mem hm, hp.depth <| List.mem_map_of_mem hm⟩

theorem placed_flatMap {bs : List KBucket}
    (h : ∀ {d : Nat} {b : KBucket}, bs[d]? = some b → Placed root (· = d) b.keys) :
    Placed root (· < bs.length) (bs.flatMap KBucket.keys) := by
  induction bs using List.reverseRecOn
  case nil => exact .nil ..
  case append_singleton bs b hi =>
    have hb := h (d := bs.length) (b := b) (by simp)
    have hbs := hi fun hc => h <| by
      rwa [List.getElem?_append_left (List.getElem?_eq_some_iff.mp hc).choose]
    rw [List.flatMap_append, List.flatMap_singleton, List.length_append, List.length_singleton]
    refine .append (hbs.mono fun _ _ hd => ?_) (hb.mono fun _ _ hd => ?_) ?_
    · exact Nat.lt_succ_of_lt hd
    · exact hd ▸ Nat.lt_succ_self _
    · intro key hm key' hm'
      have hd := hbs.inRange hm
      have hd' := hb.inRange hm'
      omega

theorem Valid.nodup_ids (h : t.Valid) : (t.nodes.map KNode.id).Nodup := by
  have hb := placed_flatMap fun hb => (h.bucket hb).placed
  have hr := h.rootBucket.placed
  have hp : Placed t.root (fun _ => True) (t.buckets.flatMap KBucket.keys ++ t.rootBucket.keys) := by
    refine .append (hb.mono fun _ _ _ => trivial) (hr.mono fun _ _ _ => trivial) ?_
    intro key hm key' hm'
    have hd := hb.inRange hm
    have hd' := hr.inRange hm'
    omega
  have hn := hp.nodup_ids
  simpa [nodes, KBucket.keys, List.map_flatMap, Function.comp_def, KNode.key] using hn

-- The representation invariant in terms of the nodes.
structure Invariant (root : NodeID) (config : Config) (t : Kademlia) : Prop where
  notRoot   : ∀ node ∈ t.nodes, node.id ≠ root
  nodup     : (t.nodes.map KNode.id).Nodup
  depth     : ∀ node ∈ t.nodes, node.depth = KNode.getDepth root node.id
  bucket    : ∀ d b, t.buckets[d]? = some b → ∀ node ∈ b.nodes, KNode.getDepth root node.id = d
  rootDepth : ∀ node ∈ t.rootBucket.nodes, t.buckets.length ≤ KNode.getDepth root node.id
  sorted    : t.rootBucket.active.Pairwise fun a b => a.depth ≤ b.depth
  active_le : ∀ b ∈ t.buckets, b.active.length ≤ config.k
  cache_le  : ∀ b ∈ t.buckets, b.cache.length ≤ 2 * config.k

theorem Valid.invariant (h : t.Valid) : t.Invariant t.root t.config where
  notRoot _ hm := (h.mem_nodes hm).left
  nodup        := h.nodup_ids
  depth _ hm   := (h.mem_nodes hm).right
  bucket d b hb node hm := by
    have hp := (h.bucket hb).placed
    have hk := List.mem_map_of_mem (f := KNode.key) hm
    exact (hp.depth hk).symm.trans (hp.inRange hk)
  rootDepth node hm := by
    have hk := List.mem_map_of_mem (f := KNode.key) hm
    exact h.rootBucket.placed.depth hk ▸ h.rootBucket.placed.inRange hk
  sorted       := h.rootBucket.shaped.sorted
  active_le b hm := by
    have ⟨d, hd⟩ := List.mem_iff_getElem?.mp hm
    exact (h.bucket hd).shaped.active_le rfl
  cache_le b hm := by
    have ⟨d, hd⟩ := List.mem_iff_getElem?.mp hm
    exact (h.bucket hd).shaped.cache_le rfl

-- In every reachable table, the invariant holds, and every operation returns without a panic.
theorem reachable_invariant (hk : 1 ≤ config.k) (hp : config.pingInterval ≠ 0)
    (h : Reachable root config t) :
    Invariant root config t ∧ ∀ op, ∃ fuel t', t.apply fuel op = some t' := by
  have ⟨hv, hr, hc⟩ := h.keeps
  refine ⟨?_, apply_eq_some hv (hc ▸ hk) (hc ▸ hp)⟩
  have hi := hv.invariant
  rwa [hr, hc] at hi

theorem reachable_invariant_split :
    ∃ t, (new .zero {}).addNodes 2 [.ofPrefix [0x80], .ofPrefix [0x40], .ofPrefix [0x41],
        .ofPrefix [0x20], .ofPrefix [0xc0]] = some t ∧ t.buckets.length = 1 ∧
      Invariant .zero {} t ∧ ∀ op, ∃ fuel t', t.apply fuel op = some t' := by
  have hs : ((new .zero {}).addNodes 2 [.ofPrefix [0x80], .ofPrefix [0x40], .ofPrefix [0x41],
      .ofPrefix [0x20], .ofPrefix [0xc0]]).any (·.buckets.length == 1) := by decide +kernel
  have ⟨t, ht, hl⟩ := Option.any_eq_true _ _ |>.mp hs
  have hr : Reachable .zero {} t := .step .new (show (new .zero {}).apply 2 (.addNodes _) = t from ht)
  exact ⟨t, ht, by simpa using hl, reachable_invariant (by decide) (by decide) hr⟩

end Kademlia
