import Fledger.DhtRouter.Balance

namespace KBucket

variable {b : KBucket} {nodes rest moved : List KNode} {depth n : Nat}

-- If no node is left at the depth, then exactly these have been moved.
theorem Moved.rest_eq_filter (h : Moved depth n nodes rest moved)
    (hr : ∀ node ∈ rest, node.depth ≠ depth) : rest = nodes.filter (·.depth ≠ depth) := by
  have hf : rest.filter (·.depth ≠ depth) = rest := List.filter_eq_self.mpr (by simpa using hr)
  have hm : moved.filter (·.depth ≠ depth) = [] :=
    List.filter_eq_nil_iff.mpr fun node hn => by simpa using h.depth node hn
  have hl : (rest.filter (·.depth ≠ depth)).length = (nodes.filter (·.depth ≠ depth)).length := by
    rw [← (h.perm.filter _).length_eq, List.filter_append, hm, List.append_nil]
  rw [← hf]
  exact (h.sublist.filter _).eq_of_length hl

-- An overflowing bucket gives up all nodes at the smallest depth.
theorem removeAllNodesAtDepth_eq_filter (h : b.status = .overflowing)
    (hd : ∀ node ∈ b.nodes, depth ≤ node.depth) :
    (b.removeAllNodesAtDepth depth).1.active = b.active.filter (·.depth ≠ depth) ∧
      (b.removeAllNodesAtDepth depth).1.cache = b.cache.filter (·.depth ≠ depth) := by
  have hs := split_removeAllNodesAtDepth h hd
  have hr : ∀ node ∈ (b.removeAllNodesAtDepth depth).1.nodes, node.depth ≠ depth :=
    fun node hm => (hs.rest node hm).ne'
  simp only [nodes, List.mem_append] at hr
  exact ⟨(moved_moveAtDepth ..).rest_eq_filter fun node hm => hr node (.inl hm),
    (moved_moveAtDepth ..).rest_eq_filter fun node hm => hr node (.inr hm)⟩

end KBucket

namespace Kademlia

variable {t t' : Kademlia} {id root : NodeID} {config : Config} {fuel : Nat}

-- The nodes of the root bucket for which there is no other bucket.
structure Cut (t t' : Kademlia) : Prop where
  active : t'.rootBucket.active = t.rootBucket.active.filter (t'.buckets.length ≤ ·.depth)
  cache  : t'.rootBucket.cache = t.rootBucket.cache.filter (t'.buckets.length ≤ ·.depth)

theorem Valid.cut_self (h : t.Valid) : Cut t t where
  active := (List.filter_eq_self.mpr fun node hm => by
    simpa using h.le_depth (List.mem_append_left _ hm)).symm
  cache  := (List.filter_eq_self.mpr fun node hm => by
    simpa using h.le_depth (List.mem_append_right _ hm)).symm

theorem filter_filter_depth (nodes : List KNode) (n : Nat) :
    (nodes.filter (n ≤ ·.depth)).filter (·.depth ≠ n) = nodes.filter (n + 1 ≤ ·.depth) := by
  rw [List.filter_filter]
  refine List.filter_congr fun node _ => ?_
  rw [← Bool.decide_and, decide_eq_decide]
  omega

theorem Cut.splitRootBucket (h : Cut t t') (hv : t'.Valid)
    (ho : t'.rootBucket.status = .overflowing) : Cut t t'.splitRootBucket := by
  obtain ⟨ha, hc⟩ := KBucket.removeAllNodesAtDepth_eq_filter ho fun _ hm => hv.le_depth hm
  rw [h.active, filter_filter_depth] at ha
  rw [h.cache, filter_filter_depth] at hc
  constructor
  case active => rw [length_splitRootBucket]; exact ha
  case cache  => rw [length_splitRootBucket]; exact hc

-- What a run of the loop makes of a table which overflows.
structure SplitFrom (t t' : Kademlia) : Prop where
  keeps : Keeps t t'
  cut   : Cut t t'
  le    : t'.buckets.length ≤ 255
  k_le  : t'.config.k ≤ t'.rootBucket.nodes.length

theorem Valid.splitFrom_rebalanceOverflow (h : t.Valid) (hk : 1 ≤ t.config.k)
    (ho : t.rootBucket.status = .overflowing) (hr : t.rebalanceOverflow fuel = some t') :
    SplitFrom t t' ∧ t'.rootBucket.status ≠ .overflowing := by
  have hinit : SplitFrom t t := by
    obtain ⟨hl, -⟩ := KBucket.status_eq_overflowing.mp ho
    rw [h.config_eq] at hl
    exact ⟨.refl h, h.cut_self, (h.length_lt_of_overflowing hk ho).le, by omega⟩
  refine (Loop.Exits.invariant (P := SplitFrom t) ⟨fuel, hr⟩ hinit fun s hg hs => ?_).imp_right ?_
  case refine_1 =>
    have hv := hs.keeps.valid
    have ho : s.rootBucket.status = .overflowing := by simpa using hg
    have hlt := hv.length_lt_of_overflowing (hs.keeps.config ▸ hk) ho
    refine ⟨hs.keeps.trans ⟨hv.splitRootBucket ho, rfl, rfl⟩, hs.cut.splitRootBucket hv ho, ?_, ?_⟩
    · rw [length_splitRootBucket]
      exact hlt
    · have hl := hv.le_length_splitRootBucket ho
      rwa [KBucket.depths, List.length_map] at hl
  case refine_2 => exact fun hg => by simpa using hg

-- What is left of the root bucket when a node which has been added to it makes it overflow.
theorem Reachable.splitFrom_addNode (h : Reachable root config t) (hk : 1 ≤ config.k)
    (hr : id ≠ root) (hn : t.hasNodeId id = false)
    (hb : t.buckets.length ≤ KNode.getDepth root id)
    (ho : (t.rootBucket.addNode (.new root id)).status = .overflowing) :
    ∃ fuel t',
      Kademlia.rebalanceOverflow fuel { t with rootBucket := t.rootBucket.addNode (.new root id) } =
        some t' ∧
      t.addNode fuel id = some t' ∧
      t'.buckets.length ≤ 255 ∧
      t'.rootBucket.active = t.rootBucket.active.filter (t'.buckets.length ≤ ·.depth) ∧
      t'.rootBucket.cache =
        (t.rootBucket.cache ++ [KNode.new root id]).filter (t'.buckets.length ≤ ·.depth) ∧
      config.k ≤ t'.rootBucket.nodes.length ∧
      t'.rootBucket.status ≠ .overflowing := by
  have hkeeps := h.keeps
  have hroot : t.root = root := hkeeps.root
  have hconfig : t.config = config := hkeeps.config
  subst hroot hconfig
  have hc : ¬(id == t.root || t.hasNodeId id) = true := by simp [hr, hn]
  have hnone : t.buckets[(KNode.new t.root id).depth]? = none := List.getElem?_eq_none hb
  have hv := hkeeps.valid.addNodeRoot hc hnone
  obtain ⟨fuel, t', ht⟩ := rebalanceOverflow_eq_some hv hk
  obtain ⟨hs, hstatus⟩ := hv.splitFrom_rebalanceOverflow hk ho ht
  have hcache : t.rootBucket.addNode (.new t.root id) =
      { t.rootBucket with cache := t.rootBucket.cache ++ [.new t.root id] } := by
    simp [KBucket.addNode, hkeeps.valid.rootBucket.shaped.isRoot_eq]
  have hcut := hs.cut
  rw [hcache] at hcut
  refine ⟨fuel, t', ht, ?_, hs.le, hcut.active, hcut.cache, hs.keeps.config ▸ hs.k_le, hstatus⟩
  rw [addNode, if_neg hc]
  simp only [hnone]
  rw [if_pos ho]
  exact ht

def threeIds : List NodeID :=
  [.ofPrefix [0x80], .ofPrefix [0x40], .ofPrefix [0x20]]

-- The fourth node makes the root bucket overflow.
theorem splitFrom_threeIds : ∃ t, (new .zero {}).addNodes 1 threeIds = some t ∧
    ∃ fuel t', t.addNode fuel (.ofPrefix [0x41]) = some t' ∧ t'.buckets.length ≤ 255 ∧
      2 ≤ t'.rootBucket.nodes.length := by
  have hs : ((new .zero {}).addNodes 1 threeIds).any fun t =>
      !t.hasNodeId (.ofPrefix [0x41]) && t.buckets.length == 0 &&
        (t.rootBucket.addNode (.new .zero (.ofPrefix [0x41]))).status == .overflowing := by
    decide +kernel
  obtain ⟨t, ht, hc⟩ := Option.any_eq_true _ _ |>.mp hs
  simp only [Bool.and_eq_true, Bool.not_eq_true', beq_iff_eq] at hc
  obtain ⟨⟨hn, hb⟩, ho⟩ := hc
  have hr : Reachable .zero {} t :=
    .step .new (show (new .zero {}).apply 1 (.addNodes threeIds) = some t from ht)
  obtain ⟨fuel, t', -, ha, hl, -, -, hk, -⟩ :=
    hr.splitFrom_addNode (by decide) (by decide) hn (hb ▸ Nat.zero_le _) ho
  exact ⟨t, ht, fuel, t', ha, hl, hk⟩

end Kademlia
