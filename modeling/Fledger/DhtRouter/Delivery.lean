import Fledger.DhtRouter.Routing
import Mathlib.Data.Finset.Insert

namespace KBucket

-- Active nodes stay active if one node shows that it is active.
theorem active_nodeActive {b : KBucket} {node : KNode} (id : NodeID) (h : node ∈ b.active) :
    ∃ node' ∈ (b.nodeActive id).1.active, node'.key = node.key := by
  have hk : node.key ∈ b.active.map KNode.key := List.mem_map_of_mem h
  refine List.mem_map.mp ?_
  unfold nodeActive
  split
  case h_1 i _ => rwa [map_key_modify]
  case h_2 =>
    split
    case h_2 => exact hk
    case h_1 =>
      dsimp only
      split
      case isFalse => exact hk
      case isTrue  =>
        refine ((sortByDepth_perm _).map _).mem_iff.mpr ?_
        rw [List.map_append]
        exact List.mem_append_left _ hk

end KBucket

namespace Kademlia

variable {t : Kademlia} {id root : NodeID} {config : Config} {depth : Nat}

theorem within_nodeActive (t : Kademlia) (id : NodeID) : Within (t.nodeActive id).1 t := by
  cases hb : t.buckets[KNode.getDepth t.root id]? <;> simp only [nodeActive, hb]
  case some b => exact within_setBucket hb (KBucket.keys_nodeActive b id).subperm
  case none   => exact within_setRootBucket (KBucket.keys_nodeActive t.rootBucket id).subperm

theorem Reachable.nodeActive (id : NodeID) (h : Reachable root config t) :
    Reachable root config (t.nodeActive id).1 :=
  .step h (show t.apply 0 (.nodeActive id) = some (t.nodeActive id).1 from rfl)

theorem mem_activeNodes : id ∈ t.activeNodes ↔
    ∃ node, ((∃ b ∈ t.buckets, node ∈ b.active) ∨ node ∈ t.rootBucket.active) ∧ node.id = id := by
  simp [activeNodes, or_and_right, exists_or]

theorem activeNodes_nodeActive (t : Kademlia) (i : NodeID) (h : id ∈ t.activeNodes) :
    id ∈ (t.nodeActive i).1.activeNodes := by
  obtain ⟨node, hn, rfl⟩ := mem_activeNodes.mp h
  rw [mem_activeNodes]
  cases hb : t.buckets[KNode.getDepth t.root i]? <;> simp only [nodeActive, hb]
  case none =>
    rcases hn with hn | hn
    · exact ⟨node, .inl hn, rfl⟩
    · obtain ⟨node', hn', hk⟩ := KBucket.active_nodeActive i hn
      exact ⟨node', .inr hn', (Prod.mk.inj hk).left⟩
  case some b =>
    rcases hn with ⟨b', hb', hn⟩ | hn
    case inr => exact ⟨node, .inr hn, rfl⟩
    case inl =>
      obtain ⟨d, hd⟩ := List.mem_iff_getElem?.mp hb'
      by_cases he : KNode.getDepth t.root i = d
      case neg =>
        refine ⟨node, .inl ⟨b', List.mem_of_getElem? (i := d) ?_, hn⟩, rfl⟩
        rw [List.getElem?_set_ne he, hd]
      case pos =>
        rw [he, hd, Option.some.injEq] at hb
        subst hb
        obtain ⟨node', hn', hk⟩ := KBucket.active_nodeActive i hn
        have hlt := (List.getElem?_eq_some_iff.mp hd).choose
        exact ⟨node', .inl ⟨_, List.mem_set (he ▸ hlt) _, hn'⟩, (Prod.mk.inj hk).left⟩

-- The active nodes are found at their depth.
theorem Valid.mem_getNodesDepth (h : t.Valid) (hm : id ∈ t.activeNodes) :
    id ∈ t.getNodesDepth (KNode.getDepth t.root id) := by
  have hi := h.invariant
  obtain ⟨node, hn, rfl⟩ := mem_activeNodes.mp hm
  unfold getNodesDepth
  rcases hn with ⟨b, hb, hn⟩ | hn
  case inl =>
    obtain ⟨d, hd⟩ := List.mem_iff_getElem?.mp hb
    rw [hi.bucket d b hd node (List.mem_append_left _ hn), hd]
    refine mem_getActiveIds.mpr ⟨node, hn, ?_, rfl⟩
    rw [hi.depth node (mem_nodes_of_bucket hd hn)]
    exact hi.bucket d b hd node (List.mem_append_left _ hn)
  case inr =>
    rw [List.getElem?_eq_none (hi.rootDepth node (List.mem_append_left _ hn))]
    exact mem_getActiveIds.mpr ⟨node, hn, hi.depth node (active_subset_nodes hn), rfl⟩

-- If there are nodes at the depth of the destination, then these are the next hops.
theorem routeClosest_of_ne_nil {dst : NodeID} (last : Option NodeID)
    (h : t.getNodesDepth (KNode.getDepth t.root dst) ≠ []) :
    t.routeClosest dst last = t.getNodesDepth (KNode.getDepth t.root dst) := by
  cases last
  case none   => rfl
  case some l => simp [routeClosest, List.length_pos_iff, h]

theorem exists_of_routeClosest {dst : NodeID} {last : Option NodeID}
    (hm : id ∈ t.routeClosest dst last) : ∃ node ∈ t.nodes, node.id = id := by
  obtain ⟨_, hm, _⟩ := exists_depth_of_routeClosest hm
  obtain ⟨node, hn, _, hi⟩ := exists_of_getNodesDepth hm
  exact ⟨node, hn, hi⟩

-- At the destination, there is no next hop if no other node is as deep as it can be.
theorem Rooted.routeClosest_root (h : t.Rooted) (last : NodeID)
    (hd : ∀ node ∈ t.nodes, KNode.getDepth t.root node.id ≠ 255) :
    t.routeClosest t.root (some last) = [] := by
  refine List.eq_nil_iff_forall_not_mem.mpr fun id hm => ?_
  obtain ⟨_, hdepth⟩ := h.of_routeClosest hm
  rw [KNode.getDepth_self] at hdepth
  rcases hdepth with hdepth | ⟨_, _, hlt, _⟩
  case inl =>
    obtain ⟨node, hn, rfl⟩ := exists_of_routeClosest hm
    exact hd node hn hdepth
  case inr =>
    have := KNode.getDepth_lt t.root id
    omega

end Kademlia

namespace DHTRouter

open KNode

-- The ids differ in other bits than the last one.
def Apart (nodes : Finset NodeID) : Prop :=
  ∀ a ∈ nodes, ∀ b ∈ nodes, (∀ n < 255, a.bit n = b.bit n) → a = b

theorem Apart.getDepth_lt {nodes : Finset NodeID} (h : Apart nodes) {a b : NodeID} (ha : a ∈ nodes)
    (hb : b ∈ nodes) (hne : a ≠ b) : getDepth a b < 255 := by
  refine Nat.lt_of_not_le fun hle => hne <| h a ha b hb fun n hn => ?_
  exact bit_eq_of_lt_getDepth (hn.trans_le hle)

-- A node of the network which knows an active node at each depth at which there is one, and which
-- knows no others than those of the network.
structure Complete (nodes : Finset NodeID) (x : NodeID) (m : Messages) : Prop where
  table     : ∃ config, Kademlia.Reachable x config m.core
  known     : ∀ node ∈ m.core.nodes, node.id ∈ nodes
  connected : ∀ id ∈ m.connected, id ∈ nodes ∧ id ≠ x
  active    : ∀ y ∈ nodes, y ≠ x → ∃ id ∈ m.core.activeNodes, getDepth x id = getDepth x y

namespace Complete

variable {nodes : Finset NodeID} {x y key : NodeID} {m : Messages}

theorem valid (h : Complete nodes x m) : m.core.Valid :=
  h.table.choose_spec.keeps.valid

theorem root (h : Complete nodes x m) : m.core.root = x :=
  h.table.choose_spec.keeps.root

theorem rooted (h : Complete nodes x m) : m.core.Rooted :=
  h.valid.invariant.rooted rfl

-- There is a next hop, which is the key or closer to it.
theorem nextHop (h : Complete nodes x m) (last : Option NodeID) (hk : key ∈ nodes) (hx : x ≠ key) :
    m.closestOrConnected key last ≠ [] ∧ ∀ y ∈ m.closestOrConnected key last,
      y ∈ nodes ∧ y ≠ x ∧ (y = key ∨ getDepth x key < getDepth y key) := by
  unfold Messages.closestOrConnected
  split
  case isTrue =>
    refine ⟨List.cons_ne_nil _ _, fun y hy => ?_⟩
    cases List.mem_singleton.mp hy
    exact ⟨hk, hx.symm, .inl rfl⟩
  case isFalse =>
    obtain ⟨id, hid, hd⟩ := h.active key hk hx.symm
    have hm := h.valid.mem_getNodesDepth hid
    rw [h.root, hd, ← h.root] at hm
    have hne := List.ne_nil_of_mem hm
    rw [Kademlia.routeClosest_of_ne_nil last hne]
    refine ⟨hne, fun y hy => ?_⟩
    obtain ⟨hr, hdy⟩ := h.rooted.of_getNodesDepth hy
    obtain ⟨node, hn, _, rfl⟩ := Kademlia.exists_of_getNodesDepth hy
    rw [h.root] at hr hdy
    refine ⟨h.known node hn, hr, ?_⟩
    rcases lt_getDepth_of_eq hr.symm hx hdy with hlt | he
    · exact .inr <| hdy ▸ hlt
    · exact .inl he

theorem nextHop_key (h : Complete nodes key m) (ha : Apart nodes) (hk : key ∈ nodes) (l : NodeID) :
    m.closestOrConnected key (some l) = [] := by
  have hc : m.connected.contains key = false := by
    rw [List.contains_eq_mem, decide_eq_false_iff_not]
    exact fun hm => (h.connected key hm).right rfl
  have hroute := h.rooted.routeClosest_root l fun node hn => ?_
  case refine_1 =>
    have hne : m.core.root ≠ node.id := (h.rooted node hn).left.symm
    rw [h.root] at hne ⊢
    exact (ha.getDepth_lt hk (h.known node hn) hne).ne
  rw [h.root] at hroute
  rw [Messages.closestOrConnected, hc, if_neg (by simp), hroute]

theorem of_eq {m' : Messages} (h : Complete nodes x m) (hc : m'.core = m.core)
    (hn : m'.connected = m.connected) : Complete nodes x m' where
  table     := hc ▸ h.table
  known     := hc ▸ h.known
  connected := hn ▸ h.connected
  active    := hc ▸ h.active

-- That another node is active does not change the view.
theorem nodeActive (h : Complete nodes x m) (id : NodeID) :
    Complete nodes x { m with core := (m.core.nodeActive id).1 } where
  table     :=
    have ⟨config, ht⟩ := h.table
    ⟨config, ht.nodeActive id⟩
  known node' hm' := by
    obtain ⟨node, hm, hk⟩ := (Kademlia.within_nodeActive m.core id).right node' hm'
    exact (Prod.mk.inj hk).left ▸ h.known node hm
  connected := h.connected
  active y hy hne := by
    obtain ⟨i, hi, hd⟩ := h.active y hy hne
    exact ⟨i, m.core.activeNodes_nodeActive id hi, hd⟩

end Complete

-- A message which is on its way from one node to another one.
structure Packet where
  src : NodeID
  dst : NodeID
  msg : NetworkWrapper

def packets (x : NodeID) (out : List InternOut) : List Packet :=
  out.filterMap fun
    | .network (.networkWrapperToNetwork dst msg) => some ⟨x, dst, msg⟩
    | _                                           => none

-- What a node hands on as having arrived, with its origin.
def dests (out : List InternOut) : List (NodeID × NetworkWrapper) :=
  out.filterMap fun
    | .dhtRouter (.messageDest orig _ msg) => some (orig, msg)
    | _                                    => none

theorem packets_append (x : NodeID) (out rest : List InternOut) :
    packets x (out ++ rest) = packets x out ++ packets x rest :=
  List.filterMap_append

theorem dests_append (out rest : List InternOut) : dests (out ++ rest) = dests out ++ dests rest :=
  List.filterMap_append

section Handle

variable [Yaml ModuleMessage] {nodes : Finset NodeID} {x y key orig l : NodeID} {m : Messages}
  {env : Env} {msg : NetworkWrapper} {mm : ModuleMessage}

-- What a node does with the message: it has arrived, or it is sent to one other node.
inductive Handled (nodes : Finset NodeID) (orig key : NodeID) (msg : NetworkWrapper)
    (mm : ModuleMessage) (x : NodeID) (out : List InternOut) : Prop
  | arrived (h : x = key) (packets : packets x out = []) (dests : dests out = [(orig, msg)])
  | forwarded (y : NodeID) (w : NetworkWrapper) (h : x ≠ key) (packets : packets x out = [⟨x, y, w⟩])
    (dests : dests out = []) (read : w.unwrapYaml ModuleMessage dhtRouterName = some mm)
    (mem : y ∈ nodes) (closer : y = key ∨ getDepth x key < getDepth y key)

theorem Handled.append {out rest : List InternOut} (h : Handled nodes orig key msg mm x out)
    (hp : packets x rest = []) (hd : dests rest = []) :
    Handled nodes orig key msg mm x (out ++ rest) := by
  cases h
  case arrived h packets dests =>
    refine .arrived h ?_ ?_
    · rw [packets_append, packets, hp, List.append_nil]
    · rw [dests_append, dests, hd, List.append_nil]
  case forwarded y w h packets dests read mem closer =>
    refine .forwarded y w h ?_ ?_ read mem closer
    · rw [packets_append, packets, hp, List.append_nil]
    · rw [dests_append, dests, hd, List.append_nil]

theorem wrapperNetwork_of_lossless (h : Yaml.Lossless mm) (y : NodeID) :
    ∃ w, mm.wrapperNetwork y = some (.network (.networkWrapperToNetwork y w)) ∧
      w.unwrapYaml ModuleMessage dhtRouterName = some mm := by
  obtain ⟨w, hw, hu⟩ := NetworkWrapper.wrapYaml_of_lossless h dhtRouterName
  exact ⟨w, by rw [ModuleMessage.wrapperNetwork, hw, Option.map_some], hu⟩

-- The node from which the message starts.
theorem handled_msgDht {sent : DHTRouterIn} (h : Complete nodes x m) (hk : key ∈ nodes)
    (hx : x ≠ key) (hs : sent = .messageClosest key msg ∧ mm = .closest x key msg ∨
      sent = .messageDirect key msg ∧ mm = .direct x key msg) (hy : Yaml.Lossless mm) :
    ∃ out, m.msgDht sent = some out ∧ Handled nodes x key msg mm x out := by
  obtain ⟨hne, hnext⟩ := h.nextHop none hk hx
  obtain ⟨y, ys, hys⟩ := List.exists_cons_of_ne_nil hne
  obtain ⟨hm, _, hc⟩ := hnext y (hys ▸ List.mem_cons_self)
  obtain ⟨w, hw, hu⟩ := wrapperNetwork_of_lossless hy y
  refine ⟨[.network (.networkWrapperToNetwork y w)], ?_, .forwarded y w hx rfl rfl hu hm hc⟩
  rcases hs with ⟨rfl, rfl⟩ | ⟨rfl, rfl⟩
  · simp [Messages.msgDht, Messages.newClosest, hys, h.root, hw]
  · simp [Messages.msgDht, Messages.newDirect, hys, h.root, hw]

theorem handled_messageDirect (env : Env) (l : NodeID) (h : Complete nodes x m) (hk : key ∈ nodes)
    (hy : Yaml.Lossless (ModuleMessage.direct orig key msg)) :
    ∃ out, m.messageDirect env orig l key msg = some out ∧
      Handled nodes orig key msg (.direct orig key msg) x out := by
  by_cases hx : x = key
  case pos =>
    refine ⟨[.dhtRouter (.messageDest orig l msg)], ?_, .arrived hx rfl rfl⟩
    rw [Messages.messageDirect, h.root, if_pos hx.symm]
  case neg =>
    obtain ⟨hne, hnext⟩ := h.nextHop (some l) hk hx
    have hchoose : env.choose (m.closestOrConnected key (some l)) ≠ none :=
      Env.choose_eq_none.not.mpr hne
    obtain ⟨y, hys⟩ := Option.ne_none_iff_exists'.mp hchoose
    obtain ⟨hm, _, hc⟩ := hnext y (Env.mem_of_choose hys)
    obtain ⟨w, hw, hu⟩ := wrapperNetwork_of_lossless hy y
    refine ⟨[.network (.networkWrapperToNetwork y w)], ?_, .forwarded y w hx rfl rfl hu hm hc⟩
    simp [Messages.messageDirect, h.root, Ne.symm hx, hys, hw]

variable [Yaml MessageClosest]

-- The connections and the table stay as they are.
theorem handled_messageClosest (h : Complete nodes x m) (ha : Apart nodes) (hk : key ∈ nodes)
    (he : env.localBlacklists = false) (hy : Yaml.Lossless (ModuleMessage.closest orig key msg)) :
    ∃ m' out, m.messageClosest env orig l key msg = some (m', out) ∧ m'.core = m.core ∧
      m'.connected = m.connected ∧ Handled nodes orig key msg (.closest orig key msg) x out := by
  have hb : m.blacklistBadNodes env = some m := by simp [Messages.blacklistBadNodes, he]
  have hw : m.randomlyWhitelist env = some m := by simp [Messages.randomlyWhitelist, he]
  by_cases hx : x = key
  case pos =>
    refine ⟨m, [.dhtRouter (.messageDest orig l msg)], ?_, rfl, rfl, .arrived hx rfl rfl⟩
    subst hx
    simp [Messages.messageClosest, hb, hw, h.nextHop_key ha hk l, h.root]
  case neg =>
    obtain ⟨hne, hnext⟩ := h.nextHop (some l) hk hx
    obtain ⟨y, ys, hys⟩ := List.exists_cons_of_ne_nil hne
    obtain ⟨hm, _, hc⟩ := hnext y (hys ▸ List.mem_cons_self)
    obtain ⟨w, hw', hu⟩ := wrapperNetwork_of_lossless hy y
    let inFlight := (Messages.getReadfloId msg).elim m.requestsInFlight
      fun readfloId => m.requestsInFlight.insert readfloId y
    refine ⟨{ m with requestsInFlight := inFlight },
      [.network (.networkWrapperToNetwork y w), .dhtRouter (.messageRouting orig l y key msg)],
      ?_, rfl, rfl, .forwarded y w hx rfl rfl hu hm hc⟩
    cases hr : Messages.getReadfloId msg <;>
      simp [Messages.messageClosest, hb, hw, hys, hw', inFlight, hr]

-- A node which gets the message.
theorem handled_message (h : Complete nodes x m) (ha : Apart nodes) (hk : key ∈ nodes)
    (he : env.localBlacklists = false) (hmm : mm = .closest orig key msg ∨ mm = .direct orig key msg)
    (hy : Yaml.Lossless mm) {w : NetworkWrapper}
    (hw : w.unwrapYaml ModuleMessage dhtRouterName = some mm) :
    ∃ m' out, m.message env (.network (.networkWrapperFromNetwork l w)) = some (m', out) ∧
      Complete nodes x m' ∧ Handled nodes orig key msg mm x out := by
  have hp : ∃ m₁ out, m.processModuleMessage env l mm = some (m₁, out) ∧ m₁.core = m.core ∧
      m₁.connected = m.connected ∧ Handled nodes orig key msg mm x out := by
    rcases hmm with rfl | rfl
    · exact handled_messageClosest h ha hk he hy
    · obtain ⟨out, ho, hh⟩ := handled_messageDirect env l h hk hy
      exact ⟨m, out, by simp [Messages.processModuleMessage, ho], rfl, rfl, hh⟩
  obtain ⟨m₁, out, hp, hcore, hcon, hh⟩ := hp
  let rest : List InternOut := if (m₁.core.nodeActive l).2 then
    [.dhtRouter (.nodeList (m₁.core.nodeActive l).1.activeNodes)] else []
  have hps : packets x rest = [] := by unfold rest; split <;> rfl
  have hds : dests rest = [] := by unfold rest; split <;> rfl
  refine ⟨{ m₁ with core := (m₁.core.nodeActive l).1 }, out ++ rest, ?_,
    (h.of_eq hcore hcon).nodeActive l, hh.append hps hds⟩
  simp [Messages.message, Messages.msgNetwork, Messages.processNodeMessage, hw, hp, rest]

end Handle

abbrev Net := NodeID → Messages

-- All nodes have a complete view.
def Net.Complete (nodes : Finset NodeID) (net : Net) : Prop :=
  ∀ x ∈ nodes, DHTRouter.Complete nodes x (net x)

-- What has arrived: the node at which it did, its origin and the message.
abbrev Arrival := NodeID × NodeID × NetworkWrapper

section Deliver

variable [Yaml ModuleMessage] [Yaml MessageClosest]

-- The packets are handled in the order in which they are sent, for a number of hops. Before each
-- hop, the nodes do whatever else they have to do.
def Net.deliver (envs : Nat → Env) (others : Nat → Net → Net) :
    Nat → Net → List Packet → Option (Net × List Packet × List Arrival)
  | 0,        net, ps      => some (net, ps, [])
  | _ + 1,    net, []      => some (net, [], [])
  | hops + 1, net, p :: ps => do
    let net := others hops net
    let (m, out) ← (net p.dst).message (envs hops) (.network (.networkWrapperFromNetwork p.src p.msg))
    let (net, ps, arrivals) ←
      deliver envs others hops (Function.update net p.dst m) (ps ++ packets p.dst out)
    return (net, ps, (dests out).map (p.dst, ·) ++ arrivals)

-- The number of hops which are left for a packet that is sent to a node.
def hopsLeft (key dst : NodeID) : Nat :=
  if dst = key then 1 else 256 - getDepth dst key

variable {nodes : Finset NodeID} {x y key orig : NodeID} {net net' : Net} {envs : Nat → Env}
  {others : Nat → Net → Net} {msg : NetworkWrapper} {mm : ModuleMessage} {p : Packet} {hops : Nat}

omit [Yaml ModuleMessage] [Yaml MessageClosest] in
theorem Apart.hopsLeft_lt (ha : Apart nodes) (hx : x ∈ nodes) (hk : key ∈ nodes) (hne : x ≠ key)
    (hc : y = key ∨ getDepth x key < getDepth y key) : hopsLeft key y < hopsLeft key x := by
  have hdx := ha.getDepth_lt hx hk hne
  have hdy := KNode.getDepth_lt y key
  unfold hopsLeft
  rw [if_neg hne]
  rcases hc with rfl | hlt
  · rw [if_pos rfl]
    omega
  · split <;> omega

omit [Yaml ModuleMessage] [Yaml MessageClosest] in
theorem hopsLeft_pos (key x : NodeID) : 0 < hopsLeft key x := by
  have hd := getDepth_lt x key
  unfold hopsLeft
  split <;> omega

omit [Yaml ModuleMessage] [Yaml MessageClosest] in
theorem hopsLeft_le (key x : NodeID) : hopsLeft key x ≤ 256 := by
  unfold hopsLeft
  split <;> omega

omit [Yaml ModuleMessage] [Yaml MessageClosest] in
theorem Net.Complete.update {m : Messages} (h : net.Complete nodes)
    (hm : DHTRouter.Complete nodes x m) : Net.Complete nodes (Function.update net x m) := by
  intro y hy
  by_cases he : y = x
  case pos => subst he; rwa [Function.update_self]
  case neg => rw [Function.update_of_ne he]; exact h y hy

namespace Net

theorem deliver_nil : net.deliver envs others hops [] = some (net, [], []) := by
  cases hops <;> rfl

theorem deliver_singleton {m : Messages} {out : List InternOut} {ps : List Packet}
    {arrivals : List Arrival}
    (hm : (others hops net p.dst).message (envs hops)
      (.network (.networkWrapperFromNetwork p.src p.msg)) = some (m, out))
    (hd : deliver envs others hops (Function.update (others hops net) p.dst m)
      (packets p.dst out) = some (net', ps, arrivals)) :
    net.deliver envs others (hops + 1) [p] =
      some (net', ps, (dests out).map (p.dst, ·) ++ arrivals) := by
  simp [deliver, hm, hd]

-- The packet arrives at the key only, and no other packets come of it.
theorem deliver_of_complete (ha : Apart nodes) (hk : key ∈ nodes)
    (he : ∀ i, (envs i).localBlacklists = false)
    (ho : ∀ i net, Complete nodes net → Complete nodes (others i net))
    (hmm : mm = .closest orig key msg ∨ mm = .direct orig key msg) (hy : Yaml.Lossless mm)
    (hp : p.dst ∈ nodes) (hw : p.msg.unwrapYaml ModuleMessage dhtRouterName = some mm)
    (hh : hopsLeft key p.dst ≤ hops) (h : net.Complete nodes) :
    ∃ net', net.deliver envs others hops [p] = some (net', [], [(key, orig, msg)]) := by
  induction hops generalizing net p
  case zero => exact absurd hh (hopsLeft_pos key p.dst).not_ge
  case succ hops hi =>
    have hc := ho hops net h
    obtain ⟨m, out, hm, hcm, hout⟩ :=
      handled_message (l := p.src) (hc p.dst hp) ha hk (he hops) hmm hy hw
    have hupd := hc.update hcm
    cases hout
    case arrived hx hps hds =>
      have hd := deliver_singleton hm (by rw [hps]; exact deliver_nil)
      rw [hds, hx] at hd
      exact ⟨_, hd⟩
    case forwarded y w hx hps hds hr hmem hcl =>
      have hlt := ha.hopsLeft_lt hp hk hx hcl
      obtain ⟨net', hrest⟩ :=
        hi (p := ⟨p.dst, y, w⟩) hmem hr (Nat.le_of_lt_succ <| hlt.trans_le hh) hupd
      have hd := deliver_singleton hm (by rw [hps]; exact hrest)
      rw [hds] at hd
      exact ⟨net', hd⟩

theorem Complete.delivers {sent : DHTRouterIn} (h : net.Complete nodes) (ha : Apart nodes)
    (hx : x ∈ nodes) (hk : key ∈ nodes) (hne : x ≠ key)
    (hs : sent = .messageClosest key msg ∧ mm = .closest x key msg ∨
      sent = .messageDirect key msg ∧ mm = .direct x key msg) (hy : Yaml.Lossless mm)
    (he : ∀ i, (envs i).localBlacklists = false)
    (ho : ∀ i net, Complete nodes net → Complete nodes (others i net)) :
    ∃ out, (net x).message (envs 255) (.dhtRouter sent) = some (net x, out) ∧ dests out = [] ∧
      ∃ net', net.deliver envs others 255 (packets x out) = some (net', [], [(key, x, msg)]) := by
  obtain ⟨out, ho', hout⟩ := handled_msgDht (h x hx) hk hne hs hy
  have hm : (net x).message (envs 255) (.dhtRouter sent) = some (net x, out) := by
    simp [Messages.message, ho']
  cases hout
  case arrived he _ _ => exact absurd he hne
  case forwarded y w _ hps hds hr hmem hcl =>
    have hlt := ha.hopsLeft_lt hx hk hne hcl
    have hmm : mm = .closest x key msg ∨ mm = .direct x key msg :=
      hs.imp And.right And.right
    refine ⟨out, hm, hds, hps ▸ ?_⟩
    exact deliver_of_complete ha hk he ho hmm hy hmem hr
      (Nat.le_of_lt_succ <| hlt.trans_le <| hopsLeft_le key x) h

end Net

end Deliver

end DHTRouter

namespace Kademlia

-- The table after each of the nodes was added and then was active.
def knowing (t : Kademlia) (ids : List NodeID) : Kademlia :=
  ids.foldl (fun t id => (((t.addNode 1 id).getD t).nodeActive id).1) t

theorem knowing_reachable {root : NodeID} {t : Kademlia} (ids : List NodeID)
    (h : Reachable root {} t) : Reachable root {} (t.knowing ids) := by
  induction ids generalizing t
  case nil => exact h
  case cons id ids hi =>
    refine hi <| .nodeActive id ?_
    cases ha : t.addNode 1 id
    case none    => exact h
    case some t' => exact .step h (show t.apply 1 (.addNode id) = some t' from ha)

end Kademlia

namespace DHTRouter

open KNode

-- One message, and no other one.
abbrev ModuleMessage.across : Yaml ModuleMessage where
  toString
    | .closest .. => some "Closest"
    | _           => none
  fromStr text :=
    if text = "Closest" then some (.closest .zero (.ofPrefix [0xc0]) ⟨"", ""⟩) else none

section

attribute [local instance] ModuleMessage.across noClosest

-- Three nodes, which know each other.
def three : Finset NodeID :=
  {.zero, .ofPrefix [0x80], .ofPrefix [0xc0]}

def threeNet : Net := fun x =>
  let ids := [.zero, .ofPrefix [0x80], .ofPrefix [0xc0]].filter (· ≠ x)
  { Messages.new x {} with core := (Kademlia.new x {}).knowing ids }

theorem threeNet_complete : threeNet.Complete three := by
  have hk : ∀ x ∈ three, (∀ node ∈ (threeNet x).core.nodes, node.id ∈ three) ∧
      ∀ y ∈ three, y ≠ x → ∃ id ∈ (threeNet x).core.activeNodes, getDepth x id = getDepth x y := by
    decide +kernel
  intro x hx
  exact ⟨⟨{}, Kademlia.knowing_reachable _ .new⟩, (hk x hx).left,
    fun _ hm => absurd hm List.not_mem_nil, (hk x hx).right⟩

theorem Net.delivers_across : ∃ out,
    (threeNet .zero).message quietEnv (.dhtRouter <| .messageClosest (.ofPrefix [0xc0]) ⟨"", ""⟩) =
        some (threeNet .zero, out) ∧ dests out = [] ∧
      ∃ net', threeNet.deliver (fun _ => quietEnv) (fun _ net => net) 255 (packets .zero out) =
        some (net', [], [(.ofPrefix [0xc0], .zero, ⟨"", ""⟩)]) := by
  refine threeNet_complete.delivers ?_ ?_ ?_ ?_ (.inl ⟨rfl, rfl⟩) ⟨_, rfl, rfl⟩ (fun _ => rfl)
    (fun _ _ h => h)
  case refine_1 => unfold Apart; decide +kernel
  all_goals decide +kernel

end

end DHTRouter
