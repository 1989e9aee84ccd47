import Fledger.DhtRouter.Routing
import Fledger.DhtRouter.Silence

namespace KBucket

theorem Holds.and_ne {b : KBucket} {p q : KNode → Prop} {id : NodeID} (h : b.Holds p q)
    (hn : ∀ node ∈ b.nodes, node.id ≠ id) :
    b.Holds (fun node => p node ∧ node.id ≠ id) (fun node => q node ∧ node.id ≠ id) where
  active node hm := ⟨h.active node hm, hn node <| List.mem_append_left _ hm⟩
  cache node hm  := ⟨h.cache node hm, hn node <| List.mem_append_right _ hm⟩

theorem ne_of_mem_removeNode {b : KBucket} {id : NodeID} :
    ∀ node ∈ (b.removeNode id).nodes, node.id ≠ id := by
  intro node hm
  rw [nodes, removeNode, ← List.filter_append] at hm
  exact of_decide_eq_true (List.mem_filter.mp hm).right

end KBucket

namespace Kademlia

variable {t t' : Kademlia} {p q : KNode → Prop} {id : NodeID} {fuel : Nat} {node : KNode}
  {ids : List NodeID} {last : Option NodeID} {key : U256}

theorem Valid.ne_of_bucket {d : Nat} {b : KBucket} (h : t.Valid) (hb : t.buckets[d]? = some b)
    (hd : d ≠ KNode.getDepth t.root id) : ∀ node ∈ b.nodes, node.id ≠ id := by
  rintro node hm rfl
  exact hd (h.invariant.bucket d b hb node hm).symm

theorem Valid.ne_of_rootBucket (h : t.Valid) (hd : KNode.getDepth t.root id < t.buckets.length) :
    ∀ node ∈ t.rootBucket.nodes, node.id ≠ id := by
  rintro node hm rfl
  exact absurd (h.invariant.rootDepth node hm) <| Nat.not_le.mpr hd

-- A node which is removed is nowhere in the table any more.
theorem Holds.removeNode_self (h : t.Holds p q) (hv : t.Valid) (hpq : ∀ node, p node → q node)
    (hr : t.removeNode fuel id = some t') :
    t'.Holds (fun node => p node ∧ node.id ≠ id) (fun node => q node ∧ node.id ≠ id) := by
  have hpq : ∀ node : KNode, (p node ∧ node.id ≠ id) → q node ∧ node.id ≠ id :=
    fun node hp => ⟨hpq node hp.left, hp.right⟩
  cases hb : t.buckets[KNode.getDepth t.root id]? <;>
    simp only [Kademlia.removeNode, KNode.new, hb] at hr
  case some b =>
    have hlt := (List.getElem?_eq_some_iff.mp hb).choose
    cases hr
    constructor
    case rootBucket => exact h.rootBucket.and_ne <| hv.ne_of_rootBucket hlt
    case buckets =>
      intro c hc
      obtain ⟨d, hd⟩ := List.mem_iff_getElem?.mp hc
      rw [List.getElem?_set] at hd
      split at hd
      case isTrue =>
        cases hd
        have hb := (h.buckets b <| List.mem_of_getElem? hb).removeNode id
        exact hb.and_ne KBucket.ne_of_mem_removeNode
      case isFalse hne =>
        have hc := h.buckets c <| List.mem_of_getElem? hd
        exact hc.and_ne <| hv.ne_of_bucket hd <| Ne.symm hne
  case none =>
    have hs : Holds (fun node => p node ∧ node.id ≠ id) (fun node => q node ∧ node.id ≠ id)
        { t with rootBucket := t.rootBucket.removeNode id } := by
      constructor
      case rootBucket => exact (h.rootBucket.removeNode id).and_ne KBucket.ne_of_mem_removeNode
      case buckets =>
        intro c hc
        obtain ⟨d, hd⟩ := List.mem_iff_getElem?.mp hc
        refine (h.buckets c hc).and_ne <| hv.ne_of_bucket hd ?_
        rintro rfl
        cases hb.symm.trans hd
    split at hr
    case isTrue  => exact hs.rebalanceWanting hpq hr
    case isFalse => cases hr; exact hs

theorem mem_activeNodes_of_getNodesDepth {d : Nat} (h : id ∈ t.getNodesDepth d) :
    id ∈ t.activeNodes := by
  have hactive {b : KBucket} (hm : id ∈ b.getActiveIds d) : ∃ node ∈ b.active, node.id = id := by
    obtain ⟨node, hn, he⟩ := List.mem_filterMap.mp hm
    split at he <;> cases he
    exact ⟨node, hn, rfl⟩
  unfold getNodesDepth at h
  cases hb : t.buckets[d]? <;> simp only [hb] at h
  case none =>
    obtain ⟨node, hn, rfl⟩ := hactive h
    exact List.mem_map_of_mem <| List.mem_append_right _ hn
  case some b =>
    obtain ⟨node, hn, rfl⟩ := hactive h
    refine List.mem_map_of_mem <| List.mem_append_left _ <| List.mem_flatMap.mpr ?_
    exact ⟨b, List.mem_of_getElem? hb, hn⟩

-- The next hops are active.
theorem mem_activeNodes_of_routeClosest (h : id ∈ t.routeClosest key last) :
    id ∈ t.activeNodes := by
  have ⟨_, hd, _⟩ := exists_depth_of_routeClosest h
  exact mem_activeNodes_of_getNodesDepth hd

theorem hasNodeId_of_mem (hm : node ∈ t.nodes) : t.hasNodeId node.id = true := by
  have hb {b : KBucket} (hm : node ∈ b.nodes) : b.hasNodeId node.id = true :=
    List.any_eq_true.mpr ⟨node, hm, beq_self_eq_true _⟩
  rw [hasNodeId, Bool.or_eq_true]
  rcases List.mem_append.mp hm with hm | hm
  · obtain ⟨b, hbm, hm⟩ := List.mem_flatMap.mp hm
    exact .inl <| List.any_eq_true.mpr ⟨b, hbm, hb hm⟩
  · exact .inr <| hb hm

-- Operations by which no node becomes active keep what is known of the ids.
theorem Holds.apply_passive {op : Op} (h : t.Holds p q) (hv : t.Valid)
    (hpq : ∀ node, p node → q node) (hn : ∀ root id, q (.new root id))
    (hp : ∀ node, p node → p node.tick) (hq : ∀ node, q node → q node.tick)
    (hop : ∀ id, op ≠ .nodeActive id) (ha : t.apply fuel op = some t') : t'.Holds p q := by
  by_cases ht : op = .tick
  case neg => exact h.apply hpq hn (fun id he => absurd he <| hop id) ht ha
  case pos =>
    obtain ⟨_, ht, rfl⟩ := Option.map_eq_some_iff.mp <| ht ▸ ha
    exact h.tick hv ht (fun _ hn _ => hp _ hn) (fun _ hn _ => hq _ hn) fun _ hn => hn

end Kademlia

namespace DHTRouter

-- A step of the module.
structure RouterEvent where
  env   : Env
  input : InternIn
  out   : List InternOut

namespace Messages

variable {m m' m₁ m₂ : Messages} {env : Env} {banned banned' : NodeID → Prop} {node : NodeID}

-- No active node is blacklisted, and none of some nodes in the caches is.
structure Clean (banned : NodeID → Prop) (m : Messages) : Prop where
  valid : m.core.Valid
  nodup : m.blacklistedNodes.Nodup
  holds : m.core.Holds (·.id ∉ m.blacklistedNodes)
    fun kn => banned kn.id → kn.id ∉ m.blacklistedNodes

theorem Clean.mono (h : Clean banned m) (hb : ∀ id, banned' id → banned id) : Clean banned' m where
  valid := h.valid
  nodup := h.nodup
  holds := h.holds.mono (fun _ hn => hn) fun kn hn hk => hn <| hb kn.id hk

theorem clean_new (root : NodeID) (cfg : Kademlia.Config) : Clean banned (.new root cfg) where
  valid := Kademlia.valid_new root cfg
  nodup := List.nodup_nil
  holds := .new root cfg

-- A node leaves the table when it is blacklisted.
theorem Clean.blacklist (h : Clean banned m) (hb : m.blacklist env node = some m') :
    Clean banned m' := by
  simp only [Messages.blacklist, Option.bind_eq_bind, Option.pure_def, Option.bind_eq_some_iff,
    Option.some.injEq] at hb
  obtain ⟨core, hc, rfl⟩ := hb
  have hinsert {id : NodeID} (hn : id ∉ m.blacklistedNodes) (hne : id ≠ node) :
      id ∉ m.blacklistedNodes.insert node :=
    fun hm => (List.mem_insert_iff.mp hm).elim hne hn
  refine ⟨(Kademlia.keeps_removeNode h.valid hc).valid, h.nodup.insert, ?_⟩
  refine (h.holds.removeNode_self h.valid (fun _ hn _ => hn) hc).mono ?_ ?_
  · exact fun kn ⟨hn, hne⟩ => hinsert hn hne
  · exact fun kn ⟨hn, hne⟩ hk => hinsert (hn hk) hne

theorem Clean.blacklistBadNodes (h : Clean banned m) (hb : m.blacklistBadNodes env = some m') :
    Clean banned m' :=
  blacklistBadNodes_invariant hb h fun _ _ _ hc _ hs => hc.blacklist hs

-- A node is only blacklisted for its requests.
theorem mem_of_blacklistBadNodes (hb : m.blacklistBadNodes env = some m') :
    ∀ id ∈ m'.blacklistedNodes,
      id ∈ m.blacklistedNodes ∨ 10 < m.requestsInFlight.values.count id := by
  refine blacklistBadNodes_invariant hb (P := fun m' => ∀ id ∈ m'.blacklistedNodes,
    id ∈ m.blacklistedNodes ∨ 10 < m.requestsInFlight.values.count id) (fun _ => .inl) ?_
  intro m₁ m₂ node hi hc hs id hm
  simp only [Messages.blacklist, Option.bind_eq_bind, Option.pure_def, Option.bind_eq_some_iff,
    Option.some.injEq] at hs
  obtain ⟨_, _, rfl⟩ := hs
  rcases List.mem_insert_iff.mp hm with rfl | hm
  · exact .inr hc
  · exact hi id hm

-- What is whitelisted is in a cache, and not blacklisted any more.
theorem randomlyWhitelist_cases (hw : m.randomlyWhitelist env = some m') :
    m' = m ∨ ∃ node core, m.core.addNode env.fuel node = some core ∧
      m' = { m with core, blacklistedNodes := m.blacklistedNodes.erase node } := by
  unfold randomlyWhitelist at hw
  split at hw <;> [skip; split at hw]
  case isTrue          => cases hw; exact .inl rfl
  case isFalse.isFalse => cases hw; exact .inl rfl
  case isFalse.isTrue =>
    cases hn : env.choose m.blacklistedNodes <;> simp only [hn] at hw
    case none      => cases hw; exact .inl rfl
    case some node =>
      simp only [Option.bind_eq_bind, Option.pure_def, Option.bind_eq_some_iff,
        Option.some.injEq] at hw
      obtain ⟨core, hc, rfl⟩ := hw
      exact .inr ⟨node, core, hc, rfl⟩

theorem Clean.randomlyWhitelist (h : Clean banned m) (hw : m.randomlyWhitelist env = some m') :
    Clean banned m' ∧ m'.blacklistedNodes ⊆ m.blacklistedNodes := by
  obtain rfl | ⟨node, core, hc, rfl⟩ := randomlyWhitelist_cases hw
  case inl => exact ⟨h, fun _ hm => hm⟩
  case inr =>
    have hs : m.blacklistedNodes.erase node ⊆ m.blacklistedNodes := List.erase_subset
    refine ⟨⟨(Kademlia.keeps_addNode h.valid hc).valid, h.nodup.erase node, ?_⟩, hs⟩
    have hh : m.core.Holds (·.id ∉ m.blacklistedNodes.erase node)
        fun kn => banned kn.id → kn.id ∉ m.blacklistedNodes.erase node :=
      h.holds.mono (fun kn hn hm => hn <| hs hm) fun kn hn hk hm => hn hk <| hs hm
    exact hh.addNode (fun _ hn _ => hn) (fun _ _ => h.nodup.not_mem_erase) hc

theorem Clean.addNodes {ids : List NodeID} {out : List InternOut} (h : Clean banned m)
    (hn : ∀ id ∈ ids, banned id → id ∉ m.blacklistedNodes)
    (ha : m.addNodes env ids = some (m', out)) : Clean banned m' := by
  simp only [Messages.addNodes, Option.bind_eq_bind, Option.pure_def, Option.bind_eq_some_iff,
    Option.some.injEq, Prod.mk.injEq] at ha
  obtain ⟨core, hc, rfl, _⟩ := ha
  refine ⟨(Kademlia.keeps_addNodes h.valid hc).valid, h.nodup, ?_⟩
  exact h.holds.addNodes (fun _ hn _ => hn) (fun id hm _ => hn id hm) hc

-- A node becomes active if it is in a cache.
theorem Clean.nodeActive {from_ : NodeID} (h : Clean (· = from_) m) :
    Clean (· = from_) { m with core := (m.core.nodeActive from_).1 } where
  valid := (Kademlia.keeps_nodeActive h.valid from_).valid
  nodup := h.nodup
  holds := h.holds.nodeActive (fun _ hn _ => hn) fun _ hn hid => hn hid

-- The next hops of the messages which are forwarded by `message_closest`.
def routed (out : List InternOut) : List NodeID :=
  out.filterMap fun
    | .dhtRouter (.messageRouting _ _ nextHop _ _) => some nextHop
    | _                                            => none

theorem routed_append (out rest : List InternOut) :
    routed (out ++ rest) = routed out ++ routed rest :=
  List.filterMap_append

variable [Yaml ModuleMessage] {mm : ModuleMessage} {out : List InternOut} {from_ : NodeID}

theorem routed_of_wrapperNetwork {o : InternOut} {dst : NodeID}
    (h : mm.wrapperNetwork dst = some o) : routed [o] = [] := by
  obtain ⟨w, _, rfl⟩ := wrapperNetwork_eq_some h
  rfl

theorem routed_of_mapM {ids : List NodeID} (h : ids.mapM mm.wrapperNetwork = some out) :
    routed out = [] := by
  replace h := List.mapM_eq_some.mp h
  induction h
  case nil => rfl
  case cons ho _ hi =>
    rw [← List.singleton_append, routed_append, routed_of_wrapperNetwork ho, hi, List.nil_append]

theorem routed_tick (h : m.tick = some (m', out)) : routed out = [] := by
  simp only [tick, Option.bind_eq_bind, Option.pure_def, Option.bind_eq_some_iff,
    Option.some.injEq, Prod.mk.injEq, Prod.exists] at h
  obtain ⟨_, _, _, pings, hp, requests, hr, rfl, rfl⟩ := h
  rw [routed_append, routed_of_mapM hp, routed_of_mapM hr, List.nil_append]

theorem routed_msgDht {msg : DHTRouterIn} (h : m.msgDht msg = some out) : routed out = [] := by
  cases msg
  case messageBroadcast => exact routed_of_mapM h
  case messageClosest key msg =>
    obtain ⟨_, rfl⟩ | ⟨_, _, _, _, rfl⟩ := newClosest_eq_some h <;> rfl
  case messageDirect key msg =>
    obtain ⟨_, rfl⟩ | ⟨_, _, _, _, rfl⟩ := newDirect_eq_some h <;> rfl
  case messageNeighbour dst msg =>
    simp only [msgDht] at h
    split at h
    case isFalse => cases h; rfl
    case isTrue  =>
      simp only [Option.bind_eq_bind, Option.pure_def, Option.bind_eq_some_iff,
        Option.some.injEq] at h
      obtain ⟨o, ho, rfl⟩ := h
      exact routed_of_wrapperNetwork ho

omit [Yaml ModuleMessage] in
theorem addNodes_cases {ids : List NodeID} (h : m.addNodes env ids = some (m', out)) :
    ∃ core, m.core.addNodes env.fuel ids = some core ∧ m' = { m with core } ∧ routed out = [] := by
  simp only [addNodes, Option.bind_eq_bind, Option.pure_def, Option.bind_eq_some_iff,
    Option.some.injEq, Prod.mk.injEq] at h
  obtain ⟨core, hc, rfl, rfl⟩ := h
  exact ⟨core, hc, rfl, rfl⟩

variable [Yaml MessageClosest] {w : NetworkWrapper}

theorem processModuleMessage_cases (h : m.processModuleMessage env from_ mm = some (m', out)) :
    (∃ orig key msg, mm = .closest orig key msg ∧
      m.messageClosest env orig from_ key msg = some (m', out)) ∨
    (∃ nodes, mm = .connectedIdsReply nodes ∧ m.addNodes env nodes = some (m', out)) ∨
    (m' = m ∧ routed out = []) := by
  cases mm <;> simp only [processModuleMessage, Option.bind_eq_bind, Option.pure_def,
    Option.bind_eq_some_iff, Option.some.injEq, Prod.mk.injEq] at h
  case closest orig key msg    => exact .inl ⟨orig, key, msg, rfl, h⟩
  case connectedIdsReply nodes => exact .inr <| .inl ⟨nodes, rfl, h⟩
  case ping =>
    obtain ⟨o, ho, rfl, rfl⟩ := h
    exact .inr <| .inr ⟨rfl, routed_of_wrapperNetwork ho⟩
  case connectedIdsRequest =>
    obtain ⟨o, ho, rfl, rfl⟩ := h
    exact .inr <| .inr ⟨rfl, routed_of_wrapperNetwork ho⟩
  case pong        => exact .inr <| .inr ⟨h.left.symm, h.right ▸ rfl⟩
  case neighbour _ => exact .inr <| .inr ⟨h.left.symm, h.right ▸ rfl⟩
  case direct orig dst msg =>
    obtain ⟨_, ho, rfl, rfl⟩ := h
    refine .inr <| .inr ⟨rfl, ?_⟩
    obtain ⟨_, rfl⟩ | ⟨_, ⟨_, rfl⟩ | ⟨_, _, _, _, rfl⟩⟩ := messageDirect_eq_some ho <;> rfl

-- Everything a message of another node can do.
theorem processNodeMessage_cases (h : m.processNodeMessage env from_ w = some (m', out)) :
    ∃ m₁, m' = { m₁ with core := (m₁.core.nodeActive from_).1 } ∧
      ((∃ orig key msg out₁,
          w.unwrapYaml ModuleMessage dhtRouterName = some (.closest orig key msg) ∧
          m.messageClosest env orig from_ key msg = some (m₁, out₁) ∧ routed out = routed out₁) ∨
        (∃ nodes out₁,
          w.unwrapYaml ModuleMessage dhtRouterName = some (.connectedIdsReply nodes) ∧
          m.addNodes env nodes = some (m₁, out₁) ∧ routed out = []) ∨
        (m₁ = m ∧ routed out = [])) := by
  have hrest {out : List InternOut} {isNew : Bool} {nodes : List NodeID} :
      routed (out ++ if isNew then [.dhtRouter (.nodeList nodes)] else []) = routed out := by
    rw [routed_append]
    split <;> exact List.append_nil _
  cases hu : w.unwrapYaml ModuleMessage dhtRouterName <;>
    simp only [processNodeMessage, hu, Option.bind_eq_bind, Option.pure_def, Option.bind_some,
      Option.bind_eq_some_iff, Option.some.injEq, Prod.mk.injEq, Prod.exists] at h
  case none =>
    obtain ⟨rfl, rfl⟩ := h
    exact ⟨m, rfl, .inr <| .inr ⟨rfl, hrest⟩⟩
  case some mm =>
    obtain ⟨m₁, out₁, h₁, rfl, rfl⟩ := h
    refine ⟨m₁, rfl, ?_⟩
    rw [hrest]
    obtain ⟨orig, key, msg, rfl, hc⟩ | ⟨nodes, rfl, ha⟩ | hm := processModuleMessage_cases h₁
    · exact .inl ⟨orig, key, msg, out₁, rfl, hc, rfl⟩
    · obtain ⟨_, _, _, hr⟩ := addNodes_cases ha
      exact .inr <| .inl ⟨nodes, out₁, rfl, ha, hr⟩
    · exact .inr <| .inr hm

-- Everything else a step can do: one operation on the table by which no node becomes active.
theorem message_cases {input : InternIn} (h : m.message env input = some (m', out)) :
    (∃ from_ w, input = .network (.networkWrapperFromNetwork from_ w) ∧
      m.processNodeMessage env from_ w = some (m', out)) ∨
    (∃ core connected, m' = { m with core, connected } ∧ routed out = [] ∧
      (core = m.core ∨
        ∃ op, (∀ id, op ≠ .nodeActive id) ∧ m.core.apply env.fuel op = some core)) := by
  have hadd (connected : List NodeID) {m' : Messages} {ids : List NodeID} {out : List InternOut}
      (h : { m with connected }.addNodes env ids = some (m', out)) :
      ∃ core connected, m' = { m with core, connected } ∧ routed out = [] ∧
        (core = m.core ∨
          ∃ op, (∀ id, op ≠ .nodeActive id) ∧ m.core.apply env.fuel op = some core) := by
    obtain ⟨core, hc, rfl, hr⟩ := addNodes_cases h
    exact ⟨core, connected, rfl, hr, .inr ⟨.addNodes ids, by simp, hc⟩⟩
  cases input
  case tick =>
    have hr := routed_tick h
    simp only [message, tick, Option.bind_eq_bind, Option.pure_def, Option.bind_eq_some_iff,
      Option.some.injEq, Prod.mk.injEq, Prod.exists] at h
    obtain ⟨core, ids, ht, _, _, _, _, rfl, _⟩ := h
    exact .inr ⟨core, m.connected, rfl, hr, .inr ⟨.tick, by simp, by simp [Kademlia.apply, ht]⟩⟩
  case dhtRouter msg =>
    simp only [message, Option.bind_eq_bind, Option.pure_def, Option.bind_eq_some_iff,
      Option.some.injEq, Prod.mk.injEq] at h
    obtain ⟨_, hm, rfl, rfl⟩ := h
    exact .inr ⟨m.core, m.connected, rfl, routed_msgDht hm, .inl rfl⟩
  case network msg =>
    cases msg <;> simp only [message, msgNetwork] at h
    case networkWrapperFromNetwork from_ w => exact .inl ⟨from_, w, rfl, h⟩
    case nodeInfoAvailable infos =>
      obtain ⟨ids, _, h⟩ := Option.bind_eq_some_iff.mp h
      exact .inr <| hadd m.connected h
    case nodeIdsConnected connected => exact .inr <| hadd connected h
    case systemConfig conf =>
      cases h
      refine .inr ⟨m.core, m.connected, rfl, ?_, .inl rfl⟩
      cases conf.systemRealm <;> rfl
    case disconnected id =>
      simp only [Option.bind_eq_bind, Option.pure_def, Option.bind_eq_some_iff, Option.some.injEq,
        Prod.mk.injEq] at h
      obtain ⟨core, hc, rfl, rfl⟩ := h
      exact .inr ⟨core, m.connected, rfl, rfl, .inr ⟨.nodeDisconnected id, by simp, hc⟩⟩
    case nodeInfosConnected => cases h; exact .inr ⟨m.core, m.connected, rfl, rfl, .inl rfl⟩
    case connected          => cases h; exact .inr ⟨m.core, m.connected, rfl, rfl, .inl rfl⟩

-- A node is about to become active, or to get a message, although it is blacklisted.
inductive Revives (m : Messages) : InternIn → Prop
  | returns {from_ : NodeID} {w : NetworkWrapper} :
    from_ ∈ m.blacklistedNodes →
    (m.core.hasNodeId from_ = true ∨ ∃ nodes, from_ ∈ nodes ∧
      w.unwrapYaml ModuleMessage dhtRouterName = some (.connectedIdsReply nodes)) →
    Revives m (.network (.networkWrapperFromNetwork from_ w))
  | connected {from_ orig : NodeID} {key : U256} {w msg : NetworkWrapper} :
    w.unwrapYaml ModuleMessage dhtRouterName = some (.closest orig key msg) →
    key ∈ m.connected →
    (key ∈ m.blacklistedNodes ∨ 10 < m.requestsInFlight.values.count key) →
    Revives m (.network (.networkWrapperFromNetwork from_ w))

-- The next hop is not blacklisted when `message_closest` forwards a message to it.
theorem Clean.not_mem_of_routed {orig key : U256} {msg : NetworkWrapper} (h : Clean banned m)
    (hk : key ∈ m.connected →
      key ∉ m.blacklistedNodes ∧ ¬ 10 < m.requestsInFlight.values.count key)
    (hc : m.messageClosest env orig from_ key msg = some (m', out)) :
    Clean banned m' ∧ ∀ nextHop ∈ routed out, nextHop ∉ m'.blacklistedNodes := by
  obtain ⟨m₁, m₂, h₁, h₂, hf⟩ := messageClosest_cases hc
  have hclean := h.blacklistBadNodes h₁
  have ⟨hclean', hs⟩ := hclean.randomlyWhitelist h₂
  obtain ⟨_, rfl, rfl⟩ | ⟨y, w, hy, rfl, _, rfl⟩ := hf
  case inl =>
    refine ⟨hclean', fun nextHop hm => ?_⟩
    split at hm <;> cases hm
  case inr =>
    refine ⟨⟨hclean'.valid, hclean'.nodup, hclean'.holds⟩, fun nextHop hm hb => ?_⟩
    cases List.mem_singleton.mp hm
    have hy := List.mem_of_mem_head? hy
    unfold closestOrConnected at hy
    split at hy
    case isTrue hcon =>
      cases List.mem_singleton.mp hy
      rw [(within_blacklistBadNodes h₁).left, List.contains_iff_mem] at hcon
      have ⟨hn, hcount⟩ := hk hcon
      exact (mem_of_blacklistBadNodes h₁ _ (hs hb)).elim hn hcount
    case isFalse =>
      obtain ⟨kn, hn, rfl⟩ :=
        hclean.holds.of_mem_activeNodes <| Kademlia.mem_activeNodes_of_routeClosest hy
      exact hn (hs hb)

omit [Yaml MessageClosest] in
-- Before a message of a node, either the node is not blacklisted, or it is not in the table.
theorem Clean.of_not_revives (h : Clean (fun _ => False) m)
    (hn : ¬ Revives m (.network (.networkWrapperFromNetwork from_ w))) : Clean (· = from_) m := by
  refine ⟨h.valid, h.nodup, ?_⟩
  by_cases hb : from_ ∈ m.blacklistedNodes
  case neg => exact h.holds.mono (fun _ hn => hn) fun kn _ hk => hk ▸ hb
  case pos =>
    have hno : ∀ kn ∈ m.core.nodes, kn.id = from_ → kn.id ∉ m.blacklistedNodes := by
      rintro kn hm rfl
      exact absurd (.returns hb <| .inl <| Kademlia.hasNodeId_of_mem hm) hn
    refine ⟨fun b hm => ⟨(h.holds.buckets b hm).active, fun kn hk => hno kn ?_⟩,
      ⟨h.holds.rootBucket.active, fun kn hk => hno kn ?_⟩⟩
    · exact List.mem_append_left _ <| List.mem_flatMap.mpr ⟨b, hm, List.mem_append_right _ hk⟩
    · exact List.mem_append_right _ <| List.mem_append_right _ hk

theorem Clean.message {input : InternIn} (h : Clean (fun _ => False) m) (hn : ¬ Revives m input)
    (hm : m.message env input = some (m', out)) :
    Clean (fun _ => False) m' ∧ ∀ nextHop ∈ routed out, nextHop ∉ m'.blacklistedNodes := by
  obtain ⟨from_, w, rfl, hp⟩ | ⟨core, connected, rfl, hr, hop⟩ := message_cases hm
  case inr =>
    rw [hr]
    refine ⟨?_, fun _ hm => absurd hm List.not_mem_nil⟩
    obtain rfl | ⟨op, hop, ha⟩ := hop
    · exact ⟨h.valid, h.nodup, h.holds⟩
    · refine ⟨(Kademlia.keeps_apply h.valid ha).valid, h.nodup, ?_⟩
      exact h.holds.apply_passive h.valid (fun _ hn _ => hn) (fun _ _ => False.elim)
        (fun _ hn => hn) (fun _ hn => hn) hop ha
  case inl =>
    have hclean := h.of_not_revives hn
    obtain ⟨m₁, rfl, ⟨orig, key, msg, out₁, hu, hc, hr⟩ | ⟨nodes, out₁, hu, ha, hr⟩ | ⟨rfl, hr⟩⟩ :=
      processNodeMessage_cases hp
    · have hk : key ∈ m.connected →
          key ∉ m.blacklistedNodes ∧ ¬ 10 < m.requestsInFlight.values.count key :=
        fun hk => not_or.mp fun hb => hn <| .connected hu hk hb
      have ⟨hc, hf⟩ := hclean.not_mem_of_routed hk hc
      exact ⟨hc.nodeActive.mono fun _ => False.elim, hr ▸ hf⟩
    · rw [hr]
      refine ⟨Clean.mono (Clean.nodeActive <| hclean.addNodes (fun id hm hid hb => ?_) ha)
        fun _ => False.elim, fun _ hm => absurd hm List.not_mem_nil⟩
      exact hn <| .returns (hid ▸ hb) <| .inr ⟨nodes, hid ▸ hm, hu⟩
    · rw [hr]
      exact ⟨hclean.nodeActive.mono fun _ => False.elim, fun _ hm => absurd hm List.not_mem_nil⟩

-- The runs with local blacklists, with the last step in front.
inductive Runs (root : NodeID) (cfg : Kademlia.Config) : List RouterEvent → Messages → Prop
  | new : Runs root cfg [] (.new root cfg)
  | step {h : List RouterEvent} {m m' : Messages} {env : Env} {input : InternIn}
    {out : List InternOut} :
    Runs root cfg h m → env.localBlacklists = true → m.message env input = some (m', out) →
    Runs root cfg (⟨env, input, out⟩ :: h) m'

variable {root : NodeID} {cfg : Kademlia.Config} {h : List RouterEvent} {e : RouterEvent}

theorem Runs.unique (hr : Runs root cfg h m) (hr' : Runs root cfg h m') : m = m' := by
  induction hr generalizing m'
  case new => cases hr'; rfl
  case step hm hi =>
    cases hr'
    case step _ hr' hm' =>
      cases hi hr'
      cases hm.symm.trans hm'
      rfl

theorem Runs.clean (hr : Runs root cfg h m)
    (hs : ∀ e h' m', e :: h' <:+ h → Runs root cfg h' m' → ¬ Revives m' e.input) :
    Clean (fun _ => False) m := by
  induction hr
  case new => exact clean_new root cfg
  case step h m _ env input out hr _ hm hi =>
    have hc := hi fun e h' m' hs' => hs e h' m' <| hs'.trans <| List.suffix_cons ⟨env, input, out⟩ h
    exact hc.message (hs _ h m List.suffix_rfl hr) hm |>.left

-- The branch of `message_closest` which should be impossible is taken in no step of a run in which
-- no blacklisted node is revived. What a step forwards, it forwards after its changes of the
-- blacklist.
theorem not_impossible
    (hs : ∀ e h' m', e :: h' <:+ h → Runs root cfg h' m' → ¬ Revives m' e.input) :
    ∀ e h' m', e :: h' <:+ h → Runs root cfg (e :: h') m' →
      ∀ nextHop ∈ routed e.out, nextHop ∉ m'.blacklistedNodes := by
  intro e h' m' hsuf hr
  cases hr
  case step _ hr hm =>
    have hc := hr.clean fun e' h'' m'' hs' =>
      hs e' h'' m'' <| hs'.trans <| (List.suffix_cons _ h').trans hsuf
    exact hc.message (hs _ h' _ hsuf hr) hm |>.right

-- What the module does with the inputs, one after the other.
def replay (env : Env) : List InternIn → List RouterEvent × Messages →
    Option (List RouterEvent × Messages)
  | [], hm                    => some hm
  | input :: inputs, (h, m)   =>
    (m.message env input).bind fun (m, out) => replay env inputs (⟨env, input, out⟩ :: h, m)

theorem Runs.replay {inputs : List InternIn} {h' : List RouterEvent} (hr : Runs root cfg h m)
    (he : env.localBlacklists = true)
    (hp : Messages.replay env inputs (h, m) = some (h', m')) :
    Runs root cfg h' m' ∧ h'.map RouterEvent.input = inputs.reverse ++ h.map RouterEvent.input := by
  induction inputs generalizing h m
  case nil => cases hp; exact ⟨hr, rfl⟩
  case cons input inputs hi =>
    have ⟨⟨m₁, out⟩, hm, hp⟩ := Option.bind_eq_some_iff.mp hp
    have ⟨hr, he⟩ := hi (.step hr he hm) hp
    exact ⟨hr, by simp [he]⟩

omit [Yaml MessageClosest] in
theorem not_revives {input : InternIn} (hb : m.blacklistedNodes = [])
    (hl : m.requestsInFlight.values.length ≤ 10) : ¬ Revives m input := by
  intro hr
  cases hr
  case returns hm _      => exact List.not_mem_nil (hb ▸ hm)
  case connected _ _ hor =>
    rcases hor with hm | hc
    · exact List.not_mem_nil (hb ▸ hm)
    · exact absurd (List.count_le_length.trans hl) <| Nat.not_le.mpr hc

end Messages

end DHTRouter

namespace DHTRouter.Messages

def crowded : NodeID :=
  .ofPrefix [0x80]

-- The requests differ in the first byte of their ids, and only they are read.
abbrev tally : Yaml MessageClosest where
  toString
    | .readFlo _ id => some <| String.ofList <| List.replicate (id.bytes.headD 0).toNat 'x'
    | _             => none
  fromStr s := some <| .readFlo .zero <| .ofPrefix [UInt8.ofNat s.length]

abbrev tallied : Yaml ModuleMessage where
  toString
    | .closest _ _ msg => some msg.msg
    | .direct ..       => some "reply"
    | _                => none
  fromStr s := some <|
    if s = "reply" then .direct crowded .zero ⟨"DHTStorage", s⟩
    else .closest .zero crowded ⟨"DHTStorage", s⟩

attribute [local instance] tally tallied

def suspiciousEnv : Env where
  fuel            := 1
  localBlacklists := true
  genBool         := false
  genRange n      := ⟨0, n.succ_pos⟩
  order nodes     := ⟨nodes, .refl nodes⟩

-- A request for the connected node comes from another node.
def requests (n : Nat) : InternIn :=
  .network <| .networkWrapperFromNetwork (.ofPrefix [0x40])
    ⟨dhtRouterName, String.ofList <| List.replicate n 'x'⟩

def lone : Messages :=
  .new .zero {}

def joins : InternIn :=
  .network <| .nodeIdsConnected [crowded]

-- The first request is sent to the connected node, which is not blacklisted.
theorem not_impossible_request : ∃ e h m, Runs .zero {} (e :: h) m ∧
    (e :: h).map RouterEvent.input = [requests 0, joins] ∧ crowded ∈ routed e.out ∧
    ∀ nextHop ∈ routed e.out, nextHop ∉ m.blacklistedNodes := by
  have hp : (lone.message suspiciousEnv joins).any fun (m, _) =>
      m.blacklistedNodes.isEmpty && m.requestsInFlight.values.isEmpty &&
        (m.message suspiciousEnv (requests 0)).any fun (_, out) => crowded ∈ routed out := by
    decide +kernel
  have ⟨⟨m₁, out₁⟩, h₁, hp⟩ := Option.any_eq_true _ _ |>.mp hp
  simp only [Bool.and_eq_true, List.isEmpty_iff] at hp
  have ⟨⟨hb, hl⟩, hp⟩ := hp
  have ⟨⟨m₂, out₂⟩, h₂, hp⟩ := Option.any_eq_true _ _ |>.mp hp
  have hr₁ : Runs .zero {} [⟨suspiciousEnv, joins, out₁⟩] m₁ := .step .new rfl h₁
  refine ⟨⟨suspiciousEnv, requests 0, out₂⟩, _, m₂, .step hr₁ rfl h₂, rfl, of_decide_eq_true hp, ?_⟩
  refine not_impossible (h := [⟨suspiciousEnv, requests 0, out₂⟩, _]) ?_ _ _ _ List.suffix_rfl <|
    .step hr₁ rfl h₂
  intro e h m hs hr
  rcases List.suffix_cons_iff.mp hs with he | hs
  · cases he
    cases hr.unique hr₁
    exact not_revives hb (by simp [hl])
  · rcases List.suffix_cons_iff.mp hs with he | hs
    · cases he
      cases hr
      exact not_revives rfl (Nat.zero_le _)
    · cases List.suffix_nil.mp hs

-- The twelfth request blacklists the node, and is still sent to it.
theorem impossible_requests : ∃ e h m, Runs .zero {} (e :: h) m ∧
    (e :: h).map RouterEvent.input = (joins :: (List.range 12).map requests).reverse ∧
    ∃ nextHop ∈ routed e.out, nextHop ∈ m.blacklistedNodes := by
  have hp : (replay suspiciousEnv (joins :: (List.range 12).map requests) ([], lone)).any
      fun (h, m) => h.head?.any fun e => (routed e.out).any (· ∈ m.blacklistedNodes) := by
    decide +kernel
  have ⟨⟨h, m⟩, hp, ha⟩ := Option.any_eq_true _ _ |>.mp hp
  obtain ⟨e, he, ha⟩ := Option.any_eq_true _ _ |>.mp ha
  obtain ⟨h, rfl⟩ := List.head?_eq_some_iff.mp he
  obtain ⟨nextHop, hn, hb⟩ := List.any_eq_true.mp ha
  have ⟨hr, hi⟩ := Runs.new.replay rfl hp
  exact ⟨e, h, m, hr, by simpa using hi, nextHop, hn, of_decide_eq_true hb⟩

end DHTRouter.Messages
