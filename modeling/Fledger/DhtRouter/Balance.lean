import Fledger.DhtRouter.Silence

namespace KBucket

variable {b b' : KBucket} {config : Kademlia.Config} {isRoot : Bool} {node : KNode} {id : NodeID}
  {n k : Nat}

def depths (b : KBucket) : List Nat :=
  b.nodes.map KNode.depth

-- The imbalance is about the smallest depth.
theorem overflowImbalance_eq (h : b.nodes ≠ []) :
    ∃ first ∈ b.depths, (∀ d ∈ b.depths, first ≤ d) ∧
      b.overflowImbalance = decide (b.depths.length - b.depths.count first < b.config.k) := by
  have hp := List.perm_insertionSort (· ≤ ·) b.depths
  have hs := List.pairwise_insertionSort (· ≤ ·) b.depths
  cases hm : b.depths.insertionSort (· ≤ ·)
  case nil => exact absurd (hm ▸ hp).nil_eq.symm <| by simpa [depths] using h
  case cons first rest =>
    rw [hm] at hp hs
    refine ⟨first, hp.mem_iff.mp List.mem_cons_self, fun d hd => ?_, ?_⟩
    · rcases List.mem_cons.mp <| hp.mem_iff.mpr hd with rfl | hd
      · exact Nat.le_refl d
      · exact List.rel_of_pairwise_cons hs hd
    · rw [depths, nodes] at hm
      simp only [overflowImbalance, hm, List.head?_cons, hp.length_eq, hp.count_eq]

-- There are enough nodes, also without the ones at the smallest depth.
def Overfull (k : Nat) (depths : List Nat) : Prop :=
  2 * k ≤ depths.length ∧ ∀ first, (∀ d ∈ depths, first ≤ d) → k ≤ depths.countP (first < ·)

theorem countP_lt_eq {ds : List Nat} {first : Nat} (h : ∀ d ∈ ds, first ≤ d) :
    ds.countP (first < ·) = ds.length - ds.count first := by
  have hn : ds.countP (¬ first < ·) = ds.count first := by
    rw [List.count_eq_countP]
    refine List.countP_congr fun d hd => ?_
    have hle := h d hd
    simp only [decide_eq_true_eq, beq_iff_eq]
    omega
  have hl := List.length_eq_countP_add_countP (first < ·) (l := ds)
  simp only [decide_eq_true_eq] at hl
  omega

theorem status_eq_overflowing_iff (hk : 1 ≤ b.config.k) :
    b.status = .overflowing ↔ Overfull b.config.k b.depths := by
  have hl : b.depths.length = b.nodes.length := List.length_map _
  rw [status_eq_overflowing, Overfull, hl]
  refine and_congr_right fun hle => ?_
  have hne : b.nodes ≠ [] := by
    intro he
    rw [he, List.length_nil] at hle
    omega
  have ⟨first, hm, hmin, hi⟩ := overflowImbalance_eq hne
  rw [hi, decide_eq_false_iff_not, Nat.not_lt, ← countP_lt_eq hmin]
  constructor
  case mpr => exact fun h => h first hmin
  case mp =>
    intro h d hd
    refine h.trans <| List.countP_mono_left fun x _ hx => ?_
    have hd := hd first hm
    simp only [decide_eq_true_eq] at hx ⊢
    omega

theorem status_eq_wanting_iff : b.status = .wanting ↔ b.depths.length < b.config.k := by
  have hl : b.depths.length = b.active.length + b.cache.length := by simp [depths, nodes]
  simp only [status, hl]
  split
  case isFalse => split <;> simp [*]
  case isTrue h =>
    have : ¬ b.active.length + b.cache.length < b.config.k := by omega
    split <;> simp [this]

theorem Overfull.mono {ds ds' : List Nat} (h : Overfull k ds') (hs : ds'.Subperm ds) :
    Overfull k ds where
  left  := h.left.trans hs.length_le
  right := fun first hf =>
    (h.right first fun d hd => hf d <| hs.subset hd).trans <| hs.countP_le _

-- Nodes which share one depth, above few other ones, do not make a bucket overflow.
theorem not_overfull_append {ds ds' : List Nat} (hl : ds.length < k) (hd : ∀ d ∈ ds, n ≤ d)
    (hd' : ∀ d ∈ ds', d = n) : ¬ Overfull k (ds ++ ds') := by
  intro h
  have hle := h.right n fun d hm => by
    rcases List.mem_append.mp hm with hm | hm
    · exact hd d hm
    · exact (hd' d hm).ge
  have hz : ds'.countP (n < ·) = 0 :=
    List.countP_eq_zero.mpr fun d hm => by simp [hd' d hm]
  have hc := List.countP_le_length (p := (n < ·)) (l := ds)
  rw [List.countP_append, hz] at hle
  omega

theorem depths_eq (b : KBucket) : b.depths = b.keys.map Prod.snd := by
  rw [depths, keys, List.map_map]
  rfl

theorem depths_subperm {ds : List (NodeID × Nat)} (h : b.keys.Subperm ds) :
    b.depths.Subperm (ds.map Prod.snd) := by
  have ⟨keys, hp, hs⟩ := h
  rw [depths_eq]
  exact ⟨keys.map Prod.snd, hp.map _, hs.map _⟩

-- The node is in the table after the tick.
def Survives (config : Kademlia.Config) (node : KNode) : Prop :=
  node.tick.isExpired config = false

instance : DecidablePred (Survives config) :=
  fun node => inferInstanceAs (Decidable (node.tick.isExpired config = false))

-- A tick of the root bucket leaves the nodes which are not expired by it.
theorem length_depths_tick {ids : TickIDs} {root : NodeID} {p : Nat → Prop}
    (h : b.Valid root config true p) (ht : b.tick = some (b', ids)) :
    b'.depths.length = b.nodes.countP (Survives config) := by
  obtain ⟨n, hn, ht⟩ := ticked_fillup ht
  have hn := hn h.shaped.isRoot_eq
  subst hn
  have hd := ht.deleted
  rw [List.take_length] at hd
  have hnodes : b'.nodes = (b.nodes.map KNode.tick).filter fun kn => kn.id ∉ ids.deleted := by
    have hc := ht.cache
    rw [List.take_length, List.drop_length, List.append_nil] at hc
    rw [nodes, ht.active, hc, ← List.filter_append, ← List.map_append]
    rfl
  have hids : (b.nodes.map KNode.id).Nodup := by
    have hk : b.keys.map Prod.fst = b.nodes.map KNode.id := by
      rw [keys, List.map_map]
      rfl
    exact hk ▸ h.placed.nodup_ids
  rw [depths, List.length_map, hnodes, ← List.countP_eq_length_filter, List.countP_map]
  refine List.countP_congr fun kn hm => ?_
  have hm' : kn.id ∈ ids.deleted ↔ kn.tick.isExpired config = true := by
    rw [hd, h.shaped.config_eq]
    constructor
    case mpr =>
      intro he
      exact List.mem_map.mpr ⟨kn.tick, List.mem_filter.mpr ⟨List.mem_map_of_mem hm, he⟩, rfl⟩
    case mp =>
      intro hi
      obtain ⟨_, hf, hi⟩ := List.mem_map.mp hi
      obtain ⟨hf, he⟩ := List.mem_filter.mp hf
      obtain ⟨other, ho, rfl⟩ := List.mem_map.mp hf
      exact List.inj_on_of_nodup_map hids ho hm hi ▸ he
  have ht : kn.tick.id = kn.id := rfl
  simp only [Function.comp_apply, decide_eq_true_eq, ht, hm', Bool.not_eq_true]
  rfl

end KBucket

namespace Kademlia

-- The root bucket has enough nodes, unless it is the only one, and not too many.
structure Balanced (t : Kademlia) : Prop where
  stable  : t.rootBucket.status ≠ .overflowing
  wanting : t.rootBucket.status = .wanting → t.buckets = []

-- The operation expires so many nodes of the root bucket that it would have to be merged.
structure Starves (t : Kademlia) (op : Op) : Prop where
  tick    : op = .tick
  buckets : t.buckets ≠ []
  starved : t.rootBucket.nodes.countP (KBucket.Survives t.config) < t.config.k

variable {t t' : Kademlia} {id root : NodeID} {config : Config} {fuel : Nat} {op : Op}
  {ops : List Op}

theorem Valid.config_eq (h : t.Valid) : t.rootBucket.config = t.config :=
  h.rootBucket.shaped.config_eq

theorem Valid.overflowing_iff (h : t.Valid) (hk : 1 ≤ t.config.k) :
    t.rootBucket.status = .overflowing ↔ KBucket.Overfull t.config.k t.rootBucket.depths := by
  rw [← h.config_eq]
  exact KBucket.status_eq_overflowing_iff (h.config_eq ▸ hk)

theorem Valid.wanting_iff (h : t.Valid) :
    t.rootBucket.status = .wanting ↔ t.rootBucket.depths.length < t.config.k :=
  h.config_eq ▸ KBucket.status_eq_wanting_iff

theorem Valid.le_depths (h : t.Valid) : ∀ d ∈ t.rootBucket.depths, t.buckets.length ≤ d := by
  intro d hd
  have ⟨node, hn, he⟩ := List.mem_map.mp hd
  exact he ▸ h.le_depth hn

-- Less nodes in the root bucket do not make it overflow.
theorem Valid.not_overflowing (h : t.Valid) (hv : t'.Valid) (hk : 1 ≤ t.config.k)
    (hc : t'.config = t.config) (hs : t'.rootBucket.keys.Subperm t.rootBucket.keys)
    (hn : t.rootBucket.status ≠ .overflowing) : t'.rootBucket.status ≠ .overflowing := by
  rw [ne_eq, h.overflowing_iff hk] at hn
  rw [ne_eq, hv.overflowing_iff (hc ▸ hk), hc]
  refine fun ho => hn <| ho.mono ?_
  rw [KBucket.depths_eq t.rootBucket]
  exact KBucket.depths_subperm hs

-- A split leaves enough nodes in the root bucket.
theorem Valid.le_length_splitRootBucket (h : t.Valid) (ho : t.rootBucket.status = .overflowing) :
    t.config.k ≤ t.splitRootBucket.rootBucket.depths.length := by
  have hs := KBucket.split_removeAllNodesAtDepth ho fun _ hm => h.le_depth hm
  have hc := KBucket.count_le_of_overflowing ho fun _ hm => h.le_depth hm
  have ⟨hl, _⟩ := KBucket.status_eq_overflowing.mp ho
  rw [h.config_eq] at hc hl
  simp only [Kademlia.splitRootBucket]
  generalize t.rootBucket.removeAllNodesAtDepth t.buckets.length = removed at hs ⊢
  obtain ⟨rootBucket, active, cache⟩ := removed
  have hlen := hs.keys.length_eq
  have hcount := (hs.keys.countP_eq (·.2 == t.buckets.length)).symm
  have hmoved : (active ++ cache).countP (·.depth == t.buckets.length) = (active ++ cache).length :=
    List.countP_eq_length.mpr fun node hm => by simpa using hs.moved node hm
  simp only [KBucket.keys, List.length_append, List.length_map, List.countP_append, List.countP_map,
    Function.comp_def, KNode.key] at hlen hcount hmoved
  dsimp only
  rw [KBucket.depths, List.length_map]
  omega

theorem balanced_rebalanceOverflow (h : t.Valid) (hl : t.config.k ≤ t.rootBucket.depths.length)
    (hr : t.rebalanceOverflow fuel = some t') : t'.Balanced := by
  have ⟨⟨hk, hl⟩, hg⟩ := Loop.Exits.invariant
    (P := fun s => Keeps t s ∧ t.config.k ≤ s.rootBucket.depths.length) ⟨fuel, hr⟩ ⟨.refl h, hl⟩
    fun s hg hs => by
      have ho : s.rootBucket.status = .overflowing := by simpa using hg
      refine ⟨hs.left.trans ⟨hs.left.valid.splitRootBucket ho, rfl, rfl⟩, ?_⟩
      rw [← hs.left.config]
      exact hs.left.valid.le_length_splitRootBucket ho
  refine ⟨by simpa using hg, fun hw => ?_⟩
  rw [hk.valid.wanting_iff, hk.config] at hw
  exact absurd hl <| Nat.not_le.mpr hw

-- The nodes of the merged bucket share a depth, and there are only few others.
theorem Valid.not_overflowing_mergeLastBucket (h : t.Valid) (hk : 1 ≤ t.config.k)
    (hw : t.rootBucket.status = .wanting) :
    t.mergeLastBucket.rootBucket.status ≠ .overflowing := by
  rcases List.eq_nil_or_concat' t.buckets with hb | ⟨bs, b, hb⟩
  · simp [Kademlia.mergeLastBucket, hb, hw]
  · have hlast := h.bucket (d := bs.length) (b := b) (by simp [hb])
    have hv := h.popBucket hb
    rw [mergeLastBucket_eq hb, ne_eq, hv.overflowing_iff hk]
    intro ho
    have hs := KBucket.depths_subperm <| keys_merge t.rootBucket b
    rw [List.map_append, ← KBucket.depths_eq, ← KBucket.depths_eq] at hs
    refine KBucket.not_overfull_append (n := bs.length) (h.wanting_iff.mp hw)
      (fun d hd => ?_) (fun d hd => ?_) (ho.mono hs)
    · exact Nat.le_of_lt <| Nat.lt_of_lt_of_le (by simp [hb]) (h.le_depths d hd)
    · rw [KBucket.depths_eq] at hd
      obtain ⟨key, hk, rfl⟩ := List.mem_map.mp hd
      exact hlast.placed.inRange hk

theorem balanced_rebalanceWanting (h : t.Valid) (hk : 1 ≤ t.config.k)
    (hn : t.rootBucket.status ≠ .overflowing) (hr : t.rebalanceWanting fuel = some t') :
    t'.Balanced := by
  have ⟨⟨_, hn⟩, hg⟩ := Loop.Exits.invariant
    (P := fun s => Keeps t s ∧ s.rootBucket.status ≠ .overflowing) ⟨fuel, hr⟩ ⟨.refl h, hn⟩
    fun s hg hs => by
      have hw : s.rootBucket.status = .wanting := by
        rw [Bool.and_eq_true, beq_iff_eq] at hg
        exact hg.left
      refine ⟨hs.left.trans <| keeps_mergeLastBucket hs.left.valid, ?_⟩
      exact hs.left.valid.not_overflowing_mergeLastBucket (hs.left.config ▸ hk) hw
  refine ⟨hn, fun hw => ?_⟩
  simpa [hw] using hg

theorem Balanced.of_ne_wanting (hn : t.rootBucket.status ≠ .overflowing)
    (hw : t.rootBucket.status ≠ .wanting) : t.Balanced :=
  ⟨hn, fun h => absurd h hw⟩

theorem Balanced.ne_wanting {d : Nat} {b : KBucket} (h : t.Balanced) (hb : t.buckets[d]? = some b) :
    t.rootBucket.status ≠ .wanting := by
  intro hw
  rw [h.wanting hw] at hb
  cases hb

theorem length_depths_addNode {b : KBucket} {node : KNode} (hr : b.isRoot = true) :
    (b.addNode node).depths.length = b.depths.length + 1 := by
  simp [KBucket.addNode, hr, KBucket.depths, KBucket.nodes, Nat.add_assoc]

theorem Balanced.addNode (h : t.Balanced) (hv : t.Valid) (ha : t.addNode fuel id = some t') :
    t'.Balanced := by
  unfold Kademlia.addNode at ha
  split at ha
  case isTrue => cases ha; exact h
  case isFalse hc =>
    cases hb : t.buckets[(KNode.new t.root id).depth]? <;> simp only [hb] at ha
    case some b => cases ha; exact .of_ne_wanting h.stable (h.ne_wanting hb)
    case none =>
      have hs := hv.addNodeRoot hc hb
      split at ha
      case isTrue ho =>
        refine balanced_rebalanceOverflow hs ?_ ha
        have ⟨hl, _⟩ := KBucket.status_eq_overflowing.mp ho
        rw [hs.config_eq] at hl
        rw [KBucket.depths, List.length_map]
        dsimp only at hl ⊢
        omega
      case isFalse ho =>
        cases ha
        refine ⟨ho, fun hw => h.wanting <| hv.wanting_iff.mpr ?_⟩
        have hl := hs.wanting_iff.mp hw
        dsimp only at hl
        rw [length_depths_addNode hv.rootBucket.shaped.isRoot_eq] at hl
        omega

theorem Balanced.addNodes {ids : List NodeID} (h : t.Balanced) (hv : t.Valid)
    (ha : t.addNodes fuel ids = some t') : t'.Balanced := by
  induction ids generalizing t
  case nil => cases ha; exact h
  case cons id ids hi =>
    have ⟨s, hs, ha⟩ := Option.bind_eq_some_iff.mp ha
    exact hi (h.addNode hv hs) (keeps_addNode hv hs).valid ha

theorem Balanced.removeNode (h : t.Balanced) (hv : t.Valid) (hk : 1 ≤ t.config.k)
    (hr : t.removeNode fuel id = some t') : t'.Balanced := by
  cases hb : t.buckets[KNode.getDepth t.root id]? <;>
    simp only [Kademlia.removeNode, KNode.new, hb] at hr
  case some b => cases hr; exact .of_ne_wanting h.stable (h.ne_wanting hb)
  case none =>
    have hs := hv.setRootBucket (hv.rootBucket.removeNode id)
    have hn := hv.not_overflowing hs hk rfl (KBucket.keys_removeNode _ id) h.stable
    split at hr
    case isTrue     => exact balanced_rebalanceWanting hs hk hn hr
    case isFalse hw => cases hr; exact .of_ne_wanting hn hw

theorem Balanced.nodeDisconnected (h : t.Balanced)
    (hr : t.nodeDisconnected fuel id = some t') : t'.Balanced := by
  cases hb : t.buckets[KNode.getDepth t.root id]? <;>
    simp only [Kademlia.nodeDisconnected, KNode.new, hb] at hr
  case none   => cases hr; exact h
  case some b =>
    rw [if_neg (h.ne_wanting hb)] at hr
    cases hr
    exact .of_ne_wanting h.stable (h.ne_wanting hb)

theorem Balanced.nodeActive (h : t.Balanced) (hv : t.Valid) (hk : 1 ≤ t.config.k) (id : NodeID) :
    (t.nodeActive id).1.Balanced := by
  have hkeeps := keeps_nodeActive hv id
  cases hb : t.buckets[KNode.getDepth t.root id]? <;>
    simp only [Kademlia.nodeActive, hb] at hkeeps ⊢
  case some b => exact .of_ne_wanting h.stable (h.ne_wanting hb)
  case none =>
    have hp := KBucket.keys_nodeActive t.rootBucket id
    refine ⟨hv.not_overflowing hkeeps.valid hk rfl hp.subperm h.stable, fun hw => ?_⟩
    refine h.wanting <| hv.wanting_iff.mpr ?_
    have hl : (t.rootBucket.nodeActive id).1.depths.length = t.rootBucket.depths.length := by
      rw [KBucket.depths_eq, KBucket.depths_eq, List.length_map, List.length_map, hp.length_eq]
    exact hl ▸ hkeeps.valid.wanting_iff.mp hw

theorem balanced_tick_iff {ids : TickIDs} (h : t.Balanced) (hv : t.Valid) (hk : 1 ≤ t.config.k)
    (ht : t.tick = some (t', ids)) : t'.Balanced ↔ ¬ t.Starves .tick := by
  have hkeeps := keeps_tick hv ht
  obtain ⟨ticked, rootBucket, ticks, hb, hr, rfl, _⟩ := tick_eq_some_iff.mp ht
  have hl := KBucket.length_depths_tick hv.rootBucket hr
  have hn := hv.not_overflowing hkeeps.valid hk rfl (KBucket.keys_tick hr) h.stable
  have he : ticked.map Prod.fst = [] ↔ t.buckets = [] := by
    have hlen := (List.mapM_eq_some.mp hb).length_eq
    rw [← List.length_eq_zero_iff, ← List.length_eq_zero_iff, List.length_map, hlen]
  have hw := hkeeps.valid.wanting_iff
  dsimp only at hw
  rw [hl] at hw
  constructor
  case mp =>
    intro hb hs
    exact hs.buckets <| he.mp <| hb.wanting <| hw.mpr hs.starved
  case mpr =>
    intro hs
    refine ⟨hn, fun hwant => he.mpr ?_⟩
    by_contra hbuckets
    exact hs ⟨rfl, hbuckets, hw.mp hwant⟩

-- What one operation makes of a balanced table.
theorem balanced_apply_iff (h : t.Balanced) (hv : t.Valid) (hk : 1 ≤ t.config.k)
    (ha : t.apply fuel op = some t') : t'.Balanced ↔ ¬ t.Starves op := by
  by_cases ht : op = .tick
  case pos =>
    subst ht
    obtain ⟨⟨_, ids⟩, ht, rfl⟩ := Option.map_eq_some_iff.mp ha
    exact balanced_tick_iff h hv hk ht
  case neg =>
    refine iff_of_true ?_ fun hs => ht hs.tick
    cases op
    case addNode id          => exact h.addNode hv ha
    case addNodes ids        => exact h.addNodes hv ha
    case removeNode id       => exact h.removeNode hv hk ha
    case nodeDisconnected id => exact h.nodeDisconnected ha
    case nodeActive id       => cases ha; exact h.nodeActive hv hk id
    case tick                => exact absurd rfl ht

theorem balanced_new (hk : 1 ≤ config.k) : (new root config).Balanced where
  wanting _ := rfl
  stable    := by
    rw [ne_eq, (valid_new root config).overflowing_iff hk]
    intro ho
    have hl : 2 * config.k ≤ 0 := ho.left
    omega

theorem rebalanceWanting_mono {n m : Nat} (h : t.rebalanceWanting n = some t') (hle : n ≤ m) :
    t.rebalanceWanting m = some t' :=
  Loop.run_mono h hle

theorem removeNode_mono {n m : Nat} (h : t.removeNode n id = some t') (hle : n ≤ m) :
    t.removeNode m id = some t' := by
  cases hb : t.buckets[KNode.getDepth t.root id]? <;>
    simp only [removeNode, KNode.new, hb] at h ⊢
  case some b => exact h
  case none =>
    split at h
    case isTrue hw  => simpa [hw] using rebalanceWanting_mono h hle
    case isFalse hw => simpa [hw] using h

theorem nodeDisconnected_mono {n m : Nat} (h : t.nodeDisconnected n id = some t') (hle : n ≤ m) :
    t.nodeDisconnected m id = some t' := by
  cases hb : t.buckets[KNode.getDepth t.root id]? <;>
    simp only [nodeDisconnected, KNode.new, hb] at h ⊢
  case none   => exact h
  case some b =>
    split at h
    case isTrue hw  => simpa [hw] using rebalanceWanting_mono h hle
    case isFalse hw => simpa [hw] using h

theorem apply_mono {n m : Nat} (h : t.apply n op = some t') (hle : n ≤ m) :
    t.apply m op = some t' := by
  cases op
  case addNode          => exact addNode_mono h hle
  case addNodes         => exact addNodes_mono h hle
  case removeNode       => exact removeNode_mono h hle
  case nodeDisconnected => exact nodeDisconnected_mono h hle
  case nodeActive       => exact h
  case tick             => exact h

theorem Run.unique {t₀ t₁ t₂ : Kademlia} (h₁ : Run t₀ ops t₁) (h₂ : Run t₀ ops t₂) : t₁ = t₂ := by
  induction h₁ generalizing t₂
  case nil => cases h₂; rfl
  case cons n hr ha hi =>
    cases h₂
    case cons m hr' ha' =>
      cases hi hr'
      have ha := apply_mono ha (Nat.le_max_left n m)
      exact Option.some.inj <| ha.symm.trans <| apply_mono ha' (Nat.le_max_right n m)

theorem Run.of_suffix {ops' : List Op} {t₀ : Kademlia} (h : Run t₀ ops t) (hs : ops' <:+ ops) :
    ∃ t', Run t₀ ops' t' := by
  induction h
  case nil => exact ⟨t₀, List.suffix_nil.mp hs ▸ .nil⟩
  case cons hr ha hi =>
    rcases List.suffix_cons_iff.mp hs with rfl | hs
    · exact ⟨_, .cons hr ha⟩
    · exact hi hs

theorem Run.balanced (h : Run (new root config) ops t) (hk : 1 ≤ config.k)
    (hs : ∀ op ops' t', op :: ops' <:+ ops → Run (new root config) ops' t' → ¬ t'.Starves op) :
    t.Balanced := by
  induction h
  case nil => exact balanced_new hk
  case cons ops s _ op _ hr ha hi =>
    have hb := hi fun op' ops' s' hs' => hs op' ops' s' <| hs'.trans <| List.suffix_cons op ops
    have hkeeps := hr.keeps (valid_new root config)
    exact balanced_apply_iff hb hkeeps.valid (hkeeps.config ▸ hk) ha |>.mpr <|
      hs op ops s List.suffix_rfl hr

-- The root bucket is balanced in all states of a run if and only if no tick of it starves the root
-- bucket.
theorem balanced_iff (h : Run (new root config) ops t) (hk : 1 ≤ config.k) :
    (∀ ops' t', ops' <:+ ops → Run (new root config) ops' t' → t'.Balanced) ↔
      ∀ op ops' t', op :: ops' <:+ ops → Run (new root config) ops' t' → ¬ t'.Starves op := by
  constructor
  case mpr =>
    intro hs ops' t' hsuf hr
    exact hr.balanced hk fun op ops'' t'' hs' => hs op ops'' t'' (hs'.trans hsuf)
  case mp =>
    intro hb op ops' t' hsuf hr
    have ⟨t'', hr'⟩ := h.of_suffix hsuf
    have hbal := hb _ _ hsuf hr'
    cases hr'
    case cons hr' ha =>
      cases hr.unique hr'
      have hkeeps := hr.keeps (valid_new root config)
      have ht := hb _ _ ((List.suffix_cons op ops').trans hsuf) hr
      exact balanced_apply_iff ht hkeeps.valid (hkeeps.config ▸ hk) ha |>.mp hbal

def sampleIds : List NodeID :=
  [.ofPrefix [0x80], .ofPrefix [0x40], .ofPrefix [0x41], .ofPrefix [0x20], .ofPrefix [0xc0]]

-- Adding nodes splits the root bucket, and leaves it balanced.
theorem balanced_iff_split : ∃ t, Run (new .zero {}) [.addNodes sampleIds] t ∧
    t.buckets.length = 1 ∧
    ∀ ops' t', ops' <:+ [.addNodes sampleIds] → Run (new .zero {}) ops' t' → t'.Balanced := by
  have hs : ((new .zero {}).addNodes 2 sampleIds).any (·.buckets.length == 1) := by decide +kernel
  have ⟨t, ht, hl⟩ := Option.any_eq_true _ _ |>.mp hs
  have hr : Run (new .zero {}) [.addNodes sampleIds] t :=
    .cons .nil (show (new .zero {}).apply 2 (.addNodes _) = t from ht)
  refine ⟨t, hr, by simpa using hl, balanced_iff hr (by decide) |>.mpr ?_⟩
  intro op ops' t' hsuf _ hst
  have hm : op ∈ [.addNodes sampleIds] := hsuf.subset List.mem_cons_self
  cases hst.tick
  cases List.mem_singleton.mp hm

-- The root bucket is emptied by two ticks, and stays next to another bucket.
theorem not_balanced_ticks : ∃ t, Run (new .zero hasty) [.tick, .tick, .addNodes sampleIds] t ∧
    t.rootBucket.status = .wanting ∧ t.buckets ≠ [] ∧ ¬ t.Balanced := by
  have hs : ((new .zero hasty).apply 2 (.addNodes sampleIds) |>.bind fun t =>
      (t.apply 0 .tick).bind (·.apply 0 .tick)).any fun t =>
        t.rootBucket.status == .wanting && t.buckets.length == 1 := by
    decide +kernel
  have ⟨t, ht, hb⟩ := Option.any_eq_true _ _ |>.mp hs
  have ⟨_, h₁, ht⟩ := Option.bind_eq_some_iff.mp ht
  have ⟨_, h₂, h₃⟩ := Option.bind_eq_some_iff.mp ht
  obtain ⟨hw, hl⟩ : t.rootBucket.status = .wanting ∧ t.buckets.length = 1 := by simpa using hb
  have hne : t.buckets ≠ [] := List.ne_nil_of_length_pos <| by omega
  exact ⟨t, .cons (.cons (.cons .nil h₁) h₂) h₃, hw, hne, fun h => hne <| h.wanting hw⟩

end Kademlia
