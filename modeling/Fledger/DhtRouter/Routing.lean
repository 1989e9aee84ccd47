import Fledger.DhtRouter.Messages
import Fledger.DhtRouter.Table

namespace Kademlia

variable {t t' : Kademlia} {id dst root : NodeID} {config : Config} {last : Option NodeID}
  {depth fuel : Nat}

-- No node is the root, and all nodes are stored with their depths.
def Rooted (t : Kademlia) : Prop :=
  ∀ node ∈ t.nodes, node.id ≠ t.root ∧ node.depth = KNode.getDepth t.root node.id

theorem Invariant.rooted (h : Invariant root config t) (hr : t.root = root) : t.Rooted :=
  fun node hm => hr ▸ ⟨h.notRoot node hm, h.depth node hm⟩

theorem active_subset_nodes {node : KNode} (h : node ∈ t.rootBucket.active) : node ∈ t.nodes :=
  List.mem_append_right _ <| List.mem_append_left _ h

theorem mem_nodes_of_bucket {node : KNode} {b : KBucket} (hb : t.buckets[depth]? = some b)
    (h : node ∈ b.active) : node ∈ t.nodes :=
  List.mem_append_left _ <|
    List.mem_flatMap.mpr ⟨b, List.mem_of_getElem? hb, List.mem_append_left _ h⟩

theorem mem_getActiveIds {b : KBucket} :
    id ∈ b.getActiveIds depth ↔ ∃ node ∈ b.active, node.depth = depth ∧ node.id = id := by
  simp only [KBucket.getActiveIds, List.mem_filterMap, Option.ite_none_right_eq_some,
    Option.some.injEq]

theorem exists_of_getNodesDepth (hm : id ∈ t.getNodesDepth depth) :
    ∃ node ∈ t.nodes, node.depth = depth ∧ node.id = id := by
  unfold getNodesDepth at hm
  split at hm
  case h_1 b hb =>
    have ⟨node, hn, hrest⟩ := mem_getActiveIds.mp hm
    exact ⟨node, mem_nodes_of_bucket hb hn, hrest⟩
  case h_2 =>
    have ⟨node, hn, hrest⟩ := mem_getActiveIds.mp hm
    exact ⟨node, active_subset_nodes hn, hrest⟩

theorem Rooted.of_getNodesDepth (h : t.Rooted) (hm : id ∈ t.getNodesDepth depth) :
    id ≠ t.root ∧ KNode.getDepth t.root id = depth := by
  have ⟨node, hn, hd, hi⟩ := exists_of_getNodesDepth hm
  have ⟨hr, hg⟩ := h node hn
  exact hi ▸ ⟨hr, hg.symm.trans hd⟩

-- The next hops are taken from the depth of the destination, or from one which is deeper than the
-- destination and the last hop.
theorem exists_depth_of_routeClosest (hm : id ∈ t.routeClosest dst last) :
    ∃ depth, id ∈ t.getNodesDepth depth ∧ (depth = KNode.getDepth t.root dst ∨
      ∃ l, last = some l ∧ KNode.getDepth t.root dst < depth ∧
        KNode.getDepth t.root l < depth) := by
  cases last <;> simp only [routeClosest] at hm
  case none   => exact ⟨_, hm, .inl rfl⟩
  case some l =>
    cases hf : (List.map t.getNodesDepth _).find? _ <;> rw [hf] at hm
    case none => exact absurd hm List.not_mem_nil
    case some ids =>
      obtain ⟨d, hd, rfl⟩ := List.mem_map.mp (List.mem_of_find?_eq_some hf)
      refine ⟨d, hm, ?_⟩
      rcases List.mem_cons.mp hd with rfl | hd
      · exact .inl rfl
      · refine .inr ⟨l, rfl, ?_⟩
        have ⟨hle, _⟩ := List.mem_range'_1.mp hd
        omega

theorem Rooted.of_routeClosest (h : t.Rooted) (hm : id ∈ t.routeClosest dst last) :
    id ≠ t.root ∧
      (KNode.getDepth t.root id = KNode.getDepth t.root dst ∨
        ∃ l, last = some l ∧ KNode.getDepth t.root dst < KNode.getDepth t.root id ∧
          KNode.getDepth t.root l < KNode.getDepth t.root id) := by
  obtain ⟨depth, hm, hd⟩ := exists_depth_of_routeClosest hm
  have ⟨hr, hg⟩ := h.of_getNodesDepth hm
  exact ⟨hr, hg ▸ hd⟩

-- The nodes of a table are nodes of another one, apart from their ticks.
def Within (t' t : Kademlia) : Prop :=
  t'.root = t.root ∧ ∀ node' ∈ t'.nodes, ∃ node ∈ t.nodes, node.key = node'.key

theorem Within.refl (t : Kademlia) : Within t t :=
  ⟨rfl, fun node hm => ⟨node, hm, rfl⟩⟩

theorem Within.trans {t₁ t₂ t₃ : Kademlia} (h₁ : Within t₁ t₂) (h₂ : Within t₂ t₃) :
    Within t₁ t₃ := by
  refine ⟨h₁.left.trans h₂.left, fun node₁ hm₁ => ?_⟩
  have ⟨node₂, hm₂, hk₁⟩ := h₁.right node₁ hm₁
  have ⟨node₃, hm₃, hk₂⟩ := h₂.right node₂ hm₂
  exact ⟨node₃, hm₃, hk₂.trans hk₁⟩

theorem Rooted.of_within (h : t.Rooted) (hw : Within t' t) : t'.Rooted := by
  intro node' hm'
  have ⟨node, hm, hk⟩ := hw.right node' hm'
  have ⟨hi, hd⟩ := Prod.mk.inj hk
  exact hw.left ▸ hi ▸ hd ▸ h node hm

theorem mem_nodes {node : KNode} :
    node ∈ t.nodes ↔ (∃ b ∈ t.buckets, node ∈ b.nodes) ∨ node ∈ t.rootBucket.nodes := by
  simp [nodes]

theorem exists_of_subperm {b b' : KBucket} (h : b'.keys.Subperm b.keys) {node' : KNode}
    (hm : node' ∈ b'.nodes) : ∃ node ∈ b.nodes, node.key = node'.key :=
  List.mem_map.mp <| h.subset <| List.mem_map_of_mem hm

theorem within_setBucket {b b' : KBucket} (hb : t.buckets[depth]? = some b)
    (hs : b'.keys.Subperm b.keys) : Within { t with buckets := t.buckets.set depth b' } t := by
  refine ⟨rfl, fun node' hm' => ?_⟩
  rcases mem_nodes.mp hm' with ⟨c, hc, hn⟩ | hn
  case inr => exact ⟨node', mem_nodes.mpr (.inr hn), rfl⟩
  case inl =>
    rcases List.mem_or_eq_of_mem_set hc with hc | rfl
    · exact ⟨node', mem_nodes.mpr (.inl ⟨c, hc, hn⟩), rfl⟩
    · have ⟨node, hm, hk⟩ := exists_of_subperm hs hn
      exact ⟨node, mem_nodes.mpr (.inl ⟨b, List.mem_of_getElem? hb, hm⟩), hk⟩

theorem within_setRootBucket {b' : KBucket} (hs : b'.keys.Subperm t.rootBucket.keys) :
    Within { t with rootBucket := b' } t := by
  refine ⟨rfl, fun node' hm' => ?_⟩
  rcases mem_nodes.mp hm' with hb | hn
  · exact ⟨node', mem_nodes.mpr (.inl hb), rfl⟩
  · have ⟨node, hm, hk⟩ := exists_of_subperm hs hn
    exact ⟨node, mem_nodes.mpr (.inr hm), hk⟩

theorem within_mergeLastBucket (t : Kademlia) : Within t.mergeLastBucket t := by
  rcases List.eq_nil_or_concat' t.buckets with hb | ⟨bs, b, hb⟩
  case inl => simpa [mergeLastBucket, hb] using Within.refl t
  case inr =>
    rw [mergeLastBucket_eq hb]
    refine ⟨rfl, fun node' hm' => ?_⟩
    rcases mem_nodes.mp hm' with ⟨c, hc, hn⟩ | hn
    · exact ⟨node', mem_nodes.mpr (.inl ⟨c, by simp [hb, hc], hn⟩), rfl⟩
    · have hk := keys_merge t.rootBucket b |>.subset <| List.mem_map_of_mem (f := KNode.key) hn
      rcases List.mem_append.mp hk with hk | hk
      · obtain ⟨node, hm, hk⟩ := List.mem_map.mp hk
        exact ⟨node, mem_nodes.mpr (.inr hm), hk⟩
      · obtain ⟨node, hm, hk⟩ := List.mem_map.mp hk
        exact ⟨node, mem_nodes.mpr (.inl ⟨b, by simp [hb], hm⟩), hk⟩

theorem within_rebalanceWanting (h : t.rebalanceWanting fuel = some t') : Within t' t :=
  (Loop.Exits.invariant (P := (Within · t)) ⟨fuel, h⟩ (.refl t) fun s _ hs =>
    (within_mergeLastBucket s).trans hs).left

theorem within_removeNode (h : t.removeNode fuel id = some t') : Within t' t := by
  cases hb : t.buckets[KNode.getDepth t.root id]? <;> simp only [removeNode, KNode.new, hb] at h
  case some b => cases h; exact within_setBucket hb (KBucket.keys_removeNode b id)
  case none =>
    have hw := within_setRootBucket (KBucket.keys_removeNode t.rootBucket id)
    split at h
    case isTrue  => exact (within_rebalanceWanting h).trans hw
    case isFalse => cases h; exact hw

end Kademlia

namespace DHTRouter

variable [Yaml ModuleMessage]

-- What is sent over the network.
def Sends (out : List InternOut) (dst : NodeID) : Prop :=
  ∃ w, .network (.networkWrapperToNetwork dst w) ∈ out

omit [Yaml ModuleMessage] in
theorem not_sends_nil {y : NodeID} : ¬Sends [] y :=
  fun ⟨_, hm⟩ => List.not_mem_nil hm

theorem wrapperNetwork_eq_some {mm : ModuleMessage} {y : NodeID} {o : InternOut}
    (h : mm.wrapperNetwork y = some o) :
    ∃ w, NetworkWrapper.wrapYaml dhtRouterName mm = some w ∧
      o = .network (.networkWrapperToNetwork y w) := by
  have ⟨w, hw, ho⟩ := Option.map_eq_some_iff.mp h
  exact ⟨w, hw, ho.symm⟩

namespace Messages

variable {m m' : Messages} {env : Env} {key : U256} {x y orig l : NodeID} {last : Option NodeID}
  {msg : NetworkWrapper} {out : List InternOut}

section

-- The handlers which look for a next hop send nothing else over the network.
variable {mm : ModuleMessage} {nextHop : Option NodeID}

theorem forward_eq_some
    (h : (match nextHop with
      | some nextHop => do return [← mm.wrapperNetwork nextHop]
      | none         => some []) = some out) :
    (nextHop = none ∧ out = []) ∨ ∃ y w, nextHop = some y ∧
      NetworkWrapper.wrapYaml dhtRouterName mm = some w ∧
      out = [.network (.networkWrapperToNetwork y w)] := by
  cases nextHop <;> simp only [Option.bind_eq_bind, Option.pure_def, Option.bind_eq_some_iff,
    Option.some.injEq] at h
  case none => exact .inl ⟨rfl, h.symm⟩
  case some y =>
    obtain ⟨o, ho, rfl⟩ := h
    obtain ⟨w, hw, rfl⟩ := wrapperNetwork_eq_some ho
    exact .inr ⟨y, w, rfl, hw, rfl⟩

theorem newClosest_eq_some (h : m.newClosest key msg = some out) :
    ((m.closestOrConnected key none).head? = none ∧ out = []) ∨
      ∃ y w, (m.closestOrConnected key none).head? = some y ∧
        NetworkWrapper.wrapYaml dhtRouterName (ModuleMessage.closest m.core.root key msg) = some w ∧
        out = [.network (.networkWrapperToNetwork y w)] :=
  forward_eq_some h

theorem newDirect_eq_some (h : m.newDirect key msg = some out) :
    ((m.closestOrConnected key none).head? = none ∧ out = []) ∨
      ∃ y w, (m.closestOrConnected key none).head? = some y ∧
        NetworkWrapper.wrapYaml dhtRouterName (ModuleMessage.direct m.core.root key msg) = some w ∧
        out = [.network (.networkWrapperToNetwork y w)] :=
  forward_eq_some h

theorem messageDirect_eq_some (h : m.messageDirect env orig l key msg = some out) :
    (key = m.core.root ∧ out = [.dhtRouter (.messageDest orig l msg)]) ∨
      (key ≠ m.core.root ∧
        ((m.closestOrConnected key (some l) = [] ∧ out = []) ∨
          ∃ y w, env.choose (m.closestOrConnected key (some l)) = some y ∧
            NetworkWrapper.wrapYaml dhtRouterName (ModuleMessage.direct orig key msg) = some w ∧
            out = [.network (.networkWrapperToNetwork y w)])) := by
  unfold messageDirect at h
  split at h
  case isTrue hk  => cases h; exact .inl ⟨hk, rfl⟩
  case isFalse hk =>
    refine .inr ⟨hk, (forward_eq_some h).imp_left fun ⟨hn, ho⟩ => ⟨?_, ho⟩⟩
    exact Env.choose_eq_none.mp hn

end

omit [Yaml ModuleMessage] in
-- Blacklisting only takes nodes from the table.
theorem within_blacklist {node : NodeID} (h : m.blacklist env node = some m') :
    m'.connected = m.connected ∧ m'.core.Within m.core := by
  simp only [blacklist, Option.bind_eq_bind, Option.pure_def, Option.bind_eq_some_iff,
    Option.some.injEq] at h
  obtain ⟨core, hc, rfl⟩ := h
  exact ⟨rfl, Kademlia.within_removeNode hc⟩

omit [Yaml ModuleMessage] in
-- What holds before, and is kept when a node with more than 10 requests is blacklisted.
theorem blacklistBadNodes_invariant {P : Messages → Prop} (h : m.blacklistBadNodes env = some m')
    (init : P m) (step : ∀ m₁ m₂ node, P m₁ → 10 < m.requestsInFlight.values.count node →
      m₁.blacklist env node = some m₂ → P m₂) : P m' := by
  unfold blacklistBadNodes at h
  split at h
  case isTrue  => cases h; exact init
  case isFalse =>
    generalize m.requestsInFlight.values = inFlight at h step
    dsimp only at h
    generalize (env.order inFlight.dedup).1 = nodes at h
    induction nodes generalizing m
    case nil => cases h; exact init
    case cons node nodes hi =>
      simp only [List.foldlM_cons, Option.bind_eq_bind, Option.bind_eq_some_iff] at h
      obtain ⟨m₁, h₁, h⟩ := h
      split at h₁
      case isFalse   => cases h₁; exact hi init h
      case isTrue hc => exact hi (step _ _ _ init hc h₁) h

omit [Yaml ModuleMessage] in
theorem within_blacklistBadNodes (h : m.blacklistBadNodes env = some m') :
    m'.connected = m.connected ∧ m'.core.Within m.core := by
  refine blacklistBadNodes_invariant
    (P := fun m' => m'.connected = m.connected ∧ m'.core.Within m.core) h ⟨rfl, .refl _⟩ ?_
  intro m₁ m₂ node hi _ hb
  have ⟨hc, hw⟩ := within_blacklist hb
  exact ⟨hc.trans hi.left, hw.trans hi.right⟩

variable [Yaml MessageClosest]

-- Everything `message_closest` can do.
theorem messageClosest_cases (h : m.messageClosest env orig l key msg = some (m', out)) :
    ∃ m₁ m₂, m.blacklistBadNodes env = some m₁ ∧ m₁.randomlyWhitelist env = some m₂ ∧
      (((m₁.closestOrConnected key (some l)).head? = none ∧ m' = m₂ ∧
          out = [.dhtRouter (if key = m'.core.root then .messageDest orig l msg
            else .messageClosest orig l key msg)]) ∨
        ∃ y w, (m₁.closestOrConnected key (some l)).head? = some y ∧
          m' = { m₂ with
            requestsInFlight := match getReadfloId msg with
              | some readfloId => m₂.requestsInFlight.insert readfloId y
              | none           => m₂.requestsInFlight } ∧
          NetworkWrapper.wrapYaml dhtRouterName (ModuleMessage.closest orig key msg) = some w ∧
          out = [.network (.networkWrapperToNetwork y w),
            .dhtRouter (.messageRouting orig l y key msg)]) := by
  simp only [messageClosest, Option.bind_eq_bind, Option.bind_eq_some_iff] at h
  obtain ⟨m₁, h₁, m₂, h₂, h⟩ := h
  refine ⟨m₁, m₂, h₁, h₂, ?_⟩
  cases hn : (m₁.closestOrConnected key (some l)).head? <;> simp only [hn] at h
  case none =>
    refine .inl ⟨rfl, ?_⟩
    split at h <;> cases h
    case isTrue hk  => rw [if_pos hk]; exact ⟨rfl, rfl⟩
    case isFalse hk => rw [if_neg hk]; exact ⟨rfl, rfl⟩
  case some y =>
    simp only [Option.bind_eq_some_iff, Option.pure_def, Option.some.injEq, Prod.mk.injEq] at h
    obtain ⟨o, ho, rfl, rfl⟩ := h
    obtain ⟨w, hw, rfl⟩ := wrapperNetwork_eq_some ho
    exact .inr ⟨y, w, rfl, rfl, hw, rfl⟩

end Messages

-- A node sends a message for the key to another node, as its origin or after it got it from the
-- last hop. Its connections and the nodes in its table are arbitrary.
inductive Hop [Yaml MessageClosest] (key : U256) (x : NodeID) : Option NodeID → NodeID → Prop
  | newClosest {config : Kademlia.Config} {m : Messages} {msg : NetworkWrapper}
    {out : List InternOut} {y : NodeID} :
    m.core.root = x → m.core.Invariant x config → m.newClosest key msg = some out → Sends out y →
    Hop key x none y
  | newDirect {config : Kademlia.Config} {m : Messages} {msg : NetworkWrapper}
    {out : List InternOut} {y : NodeID} :
    m.core.root = x → m.core.Invariant x config → m.newDirect key msg = some out → Sends out y →
    Hop key x none y
  | messageClosest {config : Kademlia.Config} {m m' : Messages} {env : Env}
    {orig last : NodeID} {msg : NetworkWrapper} {out : List InternOut} {y : NodeID} :
    m.core.root = x → m.core.Invariant x config →
    m.messageClosest env orig last key msg = some (m', out) → Sends out y →
    Hop key x (some last) y
  | messageDirect {config : Kademlia.Config} {m : Messages} {env : Env} {orig last : NodeID}
    {msg : NetworkWrapper} {out : List InternOut} {y : NodeID} :
    m.core.root = x → m.core.Invariant x config →
    m.messageDirect env orig last key msg = some out → Sends out y →
    Hop key x (some last) y

-- The nodes to which a message is forwarded from a node, until it reaches the one with the key.
inductive Route [Yaml MessageClosest] (key : U256) : Option NodeID → NodeID → List NodeID → Prop
  | stop {last : Option NodeID} {x : NodeID} : Route key last x []
  | hop {last : Option NodeID} {x y : NodeID} {ys : List NodeID} :
    x ≠ key → Hop key x last y → Route key (some x) y ys → Route key last x (y :: ys)

section

open KNode

variable {m : Messages} {key : U256} {p x y l : NodeID} {last : Option NodeID} {ys : List NodeID}

-- How a next hop is chosen: it is the key, or it shares more bits with the key, or it is deeper
-- than both the key and the last hop.
inductive Chosen (key x : U256) (last : Option NodeID) (y : NodeID) : Prop
  | key (h : y = key)
  | closer (ne : y ≠ x) (h : getDepth x key < getDepth y key)
  | deeper (l : NodeID) (ne : y ≠ x) (last : last = some l) (key : getDepth x key < getDepth x y)
    (h : getDepth x l < getDepth x y)

omit [Yaml ModuleMessage] in
theorem chosen_of_closestOrConnected (hr : m.core.Rooted) (hx : m.core.root ≠ key)
    (hy : y ∈ m.closestOrConnected key last) : Chosen key m.core.root last y := by
  unfold Messages.closestOrConnected at hy
  split at hy
  case isTrue  => exact .key (List.mem_singleton.mp hy)
  case isFalse =>
    have ⟨hne, hd⟩ := hr.of_routeClosest hy
    rcases hd with hd | ⟨l, hl, hk, hlast⟩
    case inr => exact .deeper l hne hl hk hlast
    case inl =>
      rcases lt_getDepth_of_eq hne.symm hx hd with hlt | he
      · exact .closer hne (hd ▸ hlt)
      · exact .key he

variable [Yaml MessageClosest]

theorem Hop.chosen (h : Hop key x last y) (hx : x ≠ key) : Chosen key x last y := by
  cases h
  case newClosest m msg out hr hi h hs =>
    subst hr
    rcases Messages.newClosest_eq_some h with ⟨_, rfl⟩ | ⟨z, w, hz, _, rfl⟩
    · exact absurd hs not_sends_nil
    · obtain ⟨_, hm⟩ := hs
      cases List.mem_singleton.mp hm
      exact chosen_of_closestOrConnected (hi.rooted rfl) hx (List.mem_of_mem_head? hz)
  case newDirect m msg out hr hi h hs =>
    subst hr
    rcases Messages.newDirect_eq_some h with ⟨_, rfl⟩ | ⟨z, w, hz, _, rfl⟩
    · exact absurd hs not_sends_nil
    · obtain ⟨_, hm⟩ := hs
      cases List.mem_singleton.mp hm
      exact chosen_of_closestOrConnected (hi.rooted rfl) hx (List.mem_of_mem_head? hz)
  case messageClosest m m' env orig last msg out hr hi h hs =>
    subst hr
    have ⟨m₁, _, hb, _, hf⟩ := Messages.messageClosest_cases h
    have ⟨hc, hw⟩ := Messages.within_blacklistBadNodes hb
    have hr₁ := (hi.rooted rfl).of_within hw
    obtain ⟨_, hm⟩ := hs
    rcases hf with ⟨_, _, rfl⟩ | ⟨z, w, hz, _, _, rfl⟩ <;> simp at hm
    obtain ⟨rfl, rfl⟩ := hm
    exact hw.left ▸ chosen_of_closestOrConnected hr₁ (hw.left ▸ hx) (List.mem_of_mem_head? hz)
  case messageDirect m env orig last msg out hr hi h hs =>
    subst hr
    obtain ⟨_, hm⟩ := hs
    rcases Messages.messageDirect_eq_some h with ⟨hk, rfl⟩ | ⟨_, ⟨_, rfl⟩ | ⟨z, w, hz, _, rfl⟩⟩ <;>
      simp at hm
    obtain ⟨rfl, rfl⟩ := hm
    exact chosen_of_closestOrConnected (hi.rooted rfl) hx (Env.mem_of_choose hz)

-- What keeps a message away from a node it has left behind.
inductive Away (key p l x : U256) : Prop
  | closer (h : getDepth p key < getDepth x key)
  | deeper (ne : p ≠ x) (key : getDepth p key ≤ getDepth x key) (h : getDepth p x ≤ getDepth x l)

omit [Yaml ModuleMessage] [Yaml MessageClosest] in
theorem Away.ne (h : Away key p l x) : p ≠ x := by
  cases h
  case closer h    => intro he; exact absurd h (he ▸ lt_irrefl _)
  case deeper ne _ _ => exact ne

omit [Yaml ModuleMessage] [Yaml MessageClosest] in
theorem Away.of_chosen (h : Chosen key x last y) (hy : y ≠ key) : Away key x x y := by
  cases h
  case key h              => exact absurd h hy
  case closer _ h         => exact .closer h
  case deeper l ne _ hk _ =>
    refine .deeper ne.symm ?_ (getDepth_comm x y).le
    rw [getDepth_comm x key] at hk
    exact (getDepth_comm x key).trans_le
      ((getDepth_eq_of_lt hk).symm.trans (getDepth_comm key y)).le

omit [Yaml ModuleMessage] [Yaml MessageClosest] in
theorem Away.next (ha : Away key p l x) (h : Chosen key x (some l) y) (hy : y ≠ key) :
    Away key p x y := by
  cases h
  case key h => exact absurd h hy
  case closer _ h =>
    cases ha
    case closer ha      => exact .closer (ha.trans h)
    case deeper _ hk _  => exact .closer (hk.trans_lt h)
  case deeper l' ne hl hk h =>
    cases hl
    have hy : getDepth x key = getDepth y key := by
      rw [getDepth_comm x key] at hk ⊢
      exact (getDepth_eq_of_lt hk).symm.trans (getDepth_comm key y)
    cases ha
    case closer ha => exact .closer (hy ▸ ha)
    case deeper _ hpk hpx =>
      have hlt := hpx.trans_lt h
      have hp := getDepth_eq_of_lt hlt
      refine .deeper ?_ (hy ▸ hpk) ((hp.le.trans hlt.le).trans (getDepth_comm x y).le)
      rintro rfl
      rw [getDepth_self] at hp
      exact absurd (hp ▸ hlt) (Nat.not_lt.mpr <| Nat.le_of_lt_succ <| getDepth_lt ..)

theorem Route.notMem (h : Route key (some l) x ys) (ha : Away key p l x) (hp : p ≠ key) :
    p ∉ x :: ys := by
  generalize hl : some l = last at h
  induction h generalizing l
  case stop => simpa using ha.ne
  case hop last x y ys hx hop rest hi =>
    subst hl
    refine List.not_mem_cons_of_ne_of_not_mem ha.ne ?_
    by_cases hy : y = key
    case neg => exact hi (ha.next (hop.chosen hx) hy) rfl
    case pos =>
      subst hy
      cases rest
      case stop        => simpa using hp
      case hop h _ _   => exact absurd rfl h

theorem Route.notMem_of_ne (h : Route key last x ys) (hx : x ≠ key) : x ∉ ys := by
  cases h
  case stop => exact List.not_mem_nil
  case hop y ys _ rest hop =>
    by_cases hy : y = key
    case neg => exact rest.notMem (.of_chosen (hop.chosen hx) hy) hx
    case pos =>
      subst hy
      cases rest
      case stop      => simpa using hx
      case hop h _ _ => exact absurd rfl h

theorem Route.nodup (h : Route key last x ys) : (x :: ys).Nodup := by
  induction h
  case stop => exact List.nodup_singleton _
  case hop hx hop rest hi => exact List.nodup_cons.mpr ⟨(Route.hop hx hop rest).notMem_of_ne hx, hi⟩

-- The rank of a node on the way to the key, which grows with each hop.
def rank (key : U256) (last : Option NodeID) (x : NodeID) : Nat :=
  getDepth x key * 256 + (last.map (getDepth x)).getD 0

omit [Yaml ModuleMessage] [Yaml MessageClosest] in
theorem lastDepth_lt (last : Option NodeID) (x : NodeID) : (last.map (getDepth x)).getD 0 < 256 := by
  cases last
  case none   => simp
  case some l => exact getDepth_lt x l

omit [Yaml ModuleMessage] [Yaml MessageClosest] in
theorem rank_lt (key : U256) (last : Option NodeID) (x : NodeID) : rank key last x < 65536 := by
  have hk := getDepth_lt x key
  have hl := lastDepth_lt last x
  unfold rank
  omega

omit [Yaml ModuleMessage] [Yaml MessageClosest] in
theorem Chosen.rank_lt (h : Chosen key x last y) (hy : y ≠ key) :
    rank key last x < rank key (some x) y := by
  have hlast := lastDepth_lt last x
  unfold rank
  simp only [Option.map_some, Option.getD_some]
  cases h
  case key h              => exact absurd h hy
  case closer _ h         => omega
  case deeper l _ hl hk h =>
    have hc : getDepth x key = getDepth y key := by
      rw [getDepth_comm x key] at hk ⊢
      exact (getDepth_eq_of_lt hk).symm.trans (getDepth_comm key y)
    simp only [hl, Option.map_some, Option.getD_some, hc, getDepth_comm y x]
    omega

theorem Route.rank_add_length_le (h : Route key last x ys) :
    rank key last x + ys.length ≤ 65536 := by
  induction h
  case stop last x =>
    have hlt := DHTRouter.rank_lt key last x
    simp only [List.length_nil]
    omega
  case hop last x y ys hx hop rest hi =>
    by_cases hy : y = key
    case neg =>
      have hlt := (hop.chosen hx).rank_lt hy
      simp only [List.length_cons]
      omega
    case pos =>
      subst hy
      cases rest
      case hop h _ _ => exact absurd rfl h
      case stop =>
        have hlt := DHTRouter.rank_lt y last x
        simp only [List.length_singleton]
        omega

-- A message visits no node twice on its way to the key, and the way is finite.
theorem route_loop_free {origin : NodeID} (h : Route key none origin ys) :
    (origin :: ys).Nodup ∧ ys.length ≤ 65536 :=
  ⟨h.nodup, (Nat.le_add_left ..).trans h.rank_add_length_le⟩

end

end DHTRouter

namespace DHTRouter

-- The messages, by their names.
abbrev ModuleMessage.named : Yaml ModuleMessage where
  toString
    | .closest ..           => some "Closest"
    | .direct ..            => some "Direct"
    | .neighbour _          => some "Neighbour"
    | .ping                 => some "Ping"
    | .pong                 => some "Pong"
    | .connectedIdsRequest  => some "ConnectedIDsRequest"
    | .connectedIdsReply _  => some "ConnectedIDsReply"
  fromStr _ := none

abbrev noClosest : Yaml MessageClosest where
  toString _ := none
  fromStr _  := none

section

attribute [local instance] ModuleMessage.named noClosest

-- A node which knows one other node, and one which is connected to the key.
def knowing : Messages :=
  let core := ((Kademlia.new .zero {}).addNode 1 (.ofPrefix [0x80])).getD (.new .zero {})
  { Messages.new .zero {} with core := (core.nodeActive (.ofPrefix [0x80])).1 }

def neighbouring : Messages :=
  { Messages.new (.ofPrefix [0x80]) {} with connected := [.ofPrefix [0xc0]] }

def quietEnv : Env where
  fuel            := 1
  localBlacklists := false
  genBool         := false
  genRange _      := 0
  order nodes     := ⟨nodes, .refl nodes⟩

theorem knowing_reachable : Kademlia.Reachable .zero {} knowing.core := by
  have ha : ((Kademlia.new .zero {}).addNode 1 (.ofPrefix [0x80])).isSome = true := by
    decide +kernel
  have ⟨core, ha⟩ := Option.isSome_iff_exists.mp ha
  have hr : Kademlia.Reachable .zero {} core :=
    .step .new (show (Kademlia.new .zero {}).apply 1 (.addNode (.ofPrefix [0x80])) = core from ha)
  rw [knowing, ha]
  exact .step hr (show core.apply 0 (.nodeActive (.ofPrefix [0x80])) = _ from rfl)

theorem knowing_newClosest (msg : NetworkWrapper) :
    knowing.newClosest (.ofPrefix [0xc0]) msg = some
      [.network (.networkWrapperToNetwork (.ofPrefix [0x80]) ⟨dhtRouterName, "Closest"⟩)] := by
  have hc : (knowing.closestOrConnected (.ofPrefix [0xc0]) none).head? = some (.ofPrefix [0x80]) := by
    decide +kernel
  rw [Messages.newClosest, hc]
  rfl

theorem neighbouring_messageClosest (msg : NetworkWrapper) :
    neighbouring.messageClosest quietEnv .zero .zero (.ofPrefix [0xc0]) msg = some (neighbouring,
      [.network (.networkWrapperToNetwork (.ofPrefix [0xc0]) ⟨dhtRouterName, "Closest"⟩),
        .dhtRouter (.messageRouting .zero .zero (.ofPrefix [0xc0]) (.ofPrefix [0xc0]) msg)]) := by
  have hr : Messages.getReadfloId msg = none := by
    simp [Messages.getReadfloId, NetworkWrapper.unwrapYaml]
  simp [Messages.messageClosest, Messages.blacklistBadNodes, Messages.randomlyWhitelist, quietEnv,
    Messages.closestOrConnected, neighbouring, hr, ModuleMessage.wrapperNetwork,
    NetworkWrapper.wrapYaml]
  rfl

theorem route_loop_free_known :
    [U256.zero, .ofPrefix [0x80], .ofPrefix [0xc0]].Nodup ∧
      [U256.ofPrefix [0x80], .ofPrefix [0xc0]].length ≤ 65536 := by
  have hk := Kademlia.reachable_invariant (by decide) (by decide) knowing_reachable |>.left
  have hn : neighbouring.core.Invariant (.ofPrefix [0x80]) {} :=
    Kademlia.reachable_invariant (by decide) (by decide) .new |>.left
  have h₁ : Hop (.ofPrefix [0xc0]) .zero none (.ofPrefix [0x80]) :=
    .newClosest (m := knowing) rfl hk (knowing_newClosest ⟨"", ""⟩) ⟨_, List.mem_cons_self⟩
  have h₂ : Hop (.ofPrefix [0xc0]) (.ofPrefix [0x80]) (some .zero) (.ofPrefix [0xc0]) :=
    .messageClosest (m := neighbouring) rfl hn (neighbouring_messageClosest ⟨"", ""⟩)
      ⟨_, List.mem_cons_self⟩
  exact route_loop_free <| .hop (by decide) h₁ <| .hop (by decide) h₂ .stop

end

end DHTRouter
