import Fledger.DhtRouter.Delivery

namespace DHTRouter

open KNode

-- No node of the network shares more bits with the key.
structure Closest (nodes : Finset NodeID) (key x : U256) : Prop where
  mem : x ∈ nodes
  le  : ∀ y ∈ nodes, getDepth y key ≤ getDepth x key

variable {nodes : Finset NodeID} {x y l orig : NodeID} {key : U256} {last : Option NodeID}
  {m m' : Messages}

namespace Complete

-- A node without a next hop is one of the closest ones.
theorem closest_of_nil (h : Complete nodes x m) (hx : x ∈ nodes)
    (hn : m.closestOrConnected key last = []) : Closest nodes key x := by
  refine ⟨hx, fun y hy => Nat.le_of_not_lt fun hlt => ?_⟩
  have hne : y ≠ x := fun he => absurd hlt (he ▸ lt_irrefl _)
  have hd : getDepth x y = getDepth x key := getDepth_eq_of_lt <| getDepth_comm y key ▸ hlt
  obtain ⟨id, hid, hdepth⟩ := h.active y hy hne
  have hm := h.valid.mem_getNodesDepth hid
  rw [h.root, hdepth, hd, ← h.root] at hm
  have hr := List.ne_nil_of_mem hm
  unfold Messages.closestOrConnected at hn
  split at hn
  case isTrue  => exact List.cons_ne_nil _ _ hn
  case isFalse =>
    rw [Kademlia.routeClosest_of_ne_nil last hr] at hn
    exact hr hn

theorem mem_of_closestOrConnected (h : Complete nodes x m)
    (hy : y ∈ m.closestOrConnected key last) : y ∈ nodes := by
  unfold Messages.closestOrConnected at hy
  split at hy
  case isTrue hc =>
    rw [List.mem_singleton.mp hy]
    exact (h.connected _ <| List.contains_iff_mem.mp hc).left
  case isFalse   =>
    obtain ⟨node, hn, rfl⟩ := Kademlia.exists_of_routeClosest hy
    exact h.known node hn

end Complete

theorem mem_of_dests {msg : NetworkWrapper} {out : List InternOut}
    (h : dests out = [(orig, msg)]) : ∃ l, .dhtRouter (.messageDest orig l msg) ∈ out := by
  have hm : (orig, msg) ∈ dests out := h ▸ List.mem_singleton_self _
  obtain ⟨o, ho, hd⟩ := List.mem_filterMap.mp hm
  split at hd <;> cases hd
  exact ⟨_, ho⟩

theorem mem_of_packets {out : List InternOut} {p : Packet} (h : packets x out = [p]) :
    .network (.networkWrapperToNetwork p.dst p.msg) ∈ out := by
  have hm : p ∈ packets x out := h ▸ List.mem_singleton_self _
  obtain ⟨o, ho, hp⟩ := List.mem_filterMap.mp hm
  split at hp <;> cases hp
  exact ho

-- How much is left of the way of a message, which a node has got from another one.
def left (key : U256) (l x : NodeID) : Nat :=
  if x = key then 0 else 65536 - rank key (some l) x

theorem Chosen.left_lt (h : Chosen key x (some l) y) (hx : x ≠ key) : left key x y < left key l x := by
  have hl := DHTRouter.rank_lt key (some l) x
  have hr := DHTRouter.rank_lt key (some x) y
  unfold left
  rw [if_neg hx]
  split
  case isTrue      => omega
  case isFalse hne =>
    have hlt := h.rank_lt hne
    omega

section

variable [Yaml ModuleMessage] [Yaml MessageClosest] {env : Env} {msg w : NetworkWrapper}
  {out : List InternOut}

-- How a message for a key is handed over at the end of its way.
def arrival (orig l : NodeID) (key : U256) (msg : NetworkWrapper) (x : NodeID) : DHTRouterOut :=
  if key = x then .messageDest orig l msg else .messageClosest orig l key msg

-- What a node does with a message for a key: its way ends at one of the closest nodes.
inductive Passed (nodes : Finset NodeID) (orig l : NodeID) (key : U256) (msg : NetworkWrapper)
    (x : NodeID) (out : List InternOut) : Prop
  | arrived (closest : Closest nodes key x) (mem : .dhtRouter (arrival orig l key msg x) ∈ out)
  | forwarded (y : NodeID) (w : NetworkWrapper) (ne : x ≠ key) (hop : y ∈ nodes)
    (chosen : Chosen key x (some l) y)
    (read : w.unwrapYaml ModuleMessage dhtRouterName = some (.closest orig key msg))
    (mem : .network (.networkWrapperToNetwork y w) ∈ out)

-- A node without a blacklist always passes the message on, or hands it over.
theorem exists_passed (h : Complete nodes x m) (ha : Apart nodes) (hx : x ∈ nodes)
    (he : env.localBlacklists = false) (hy : Yaml.Lossless (ModuleMessage.closest orig key msg)) :
    ∃ m' out, m.messageClosest env orig l key msg = some (m', out) ∧
      Passed nodes orig l key msg x out := by
  have hb : m.blacklistBadNodes env = some m := by simp [Messages.blacklistBadNodes, he]
  have hw : m.randomlyWhitelist env = some m := by simp [Messages.randomlyWhitelist, he]
  cases hc : (m.closestOrConnected key (some l)).head?
  case none =>
    have hm : m.messageClosest env orig l key msg = some (m, [.dhtRouter <|
        if key = x then .messageDest orig l msg else .messageClosest orig l key msg]) := by
      simp only [Messages.messageClosest, hb, hw, hc, h.root, Option.bind_eq_bind, Option.bind_some]
      split <;> rfl
    refine ⟨m, _, hm, .arrived (h.closest_of_nil hx <| List.head?_eq_none_iff.mp hc) ?_⟩
    exact List.mem_singleton_self _
  case some y =>
    obtain ⟨w, hwrap, hread⟩ := wrapperNetwork_of_lossless hy y
    have hm : ∃ m', m.messageClosest env orig l key msg = some (m',
        [.network (.networkWrapperToNetwork y w), .dhtRouter (.messageRouting orig l y key msg)]) := by
      simp [Messages.messageClosest, hb, hw, hc, hwrap]
    obtain ⟨m', hm⟩ := hm
    have hym := List.mem_of_mem_head? hc
    have hne : x ≠ key := by
      rintro rfl
      rw [h.nextHop_key ha hx l] at hym
      exact List.not_mem_nil hym
    have hch := chosen_of_closestOrConnected h.rooted (h.root.symm ▸ hne) hym
    rw [h.root] at hch
    exact ⟨m', _, hm, .forwarded y w hne (h.mem_of_closestOrConnected hym) hch hread
      List.mem_cons_self⟩

-- A node which gets a message of another router.
theorem exists_message {mm : ModuleMessage} {m₁ : Messages} {out₁ : List InternOut}
    (hr : w.unwrapYaml ModuleMessage dhtRouterName = some mm)
    (hp : m.processModuleMessage env l mm = some (m₁, out₁)) :
    ∃ m' out, m.message env (.network (.networkWrapperFromNetwork l w)) = some (m', out) ∧
      out₁ ⊆ out := by
  have hm : m.message env (.network (.networkWrapperFromNetwork l w)) =
      some ({ m₁ with core := (m₁.core.nodeActive l).1 },
        out₁ ++ if (m₁.core.nodeActive l).2 then
          [.dhtRouter (.nodeList (m₁.core.nodeActive l).1.activeNodes)] else []) := by
    simp only [Messages.message, Messages.msgNetwork, Messages.processNodeMessage, hr, hp]
    rfl
  exact ⟨_, _, hm, List.subset_append_left ..⟩

omit [Yaml MessageClosest] in
theorem Passed.mono {out' : List InternOut} (h : Passed nodes orig l key msg x out)
    (hs : out ⊆ out') : Passed nodes orig l key msg x out' := by
  cases h
  case arrived closest mem => exact .arrived closest (hs mem)
  case forwarded y w ne hop chosen read mem => exact .forwarded y w ne hop chosen read (hs mem)

theorem passed_of_message (h : Complete nodes x m) (ha : Apart nodes) (hx : x ∈ nodes)
    (he : env.localBlacklists = false) (hy : Yaml.Lossless (ModuleMessage.closest orig key msg))
    (hr : w.unwrapYaml ModuleMessage dhtRouterName = some (.closest orig key msg)) :
    ∃ m' out, m.message env (.network (.networkWrapperFromNetwork l w)) = some (m', out) ∧
      Passed nodes orig l key msg x out := by
  obtain ⟨m₁, _, hp, hpass⟩ := exists_passed h ha hx he hy
  obtain ⟨m', out, hm, hs⟩ := exists_message hr hp
  exact ⟨m', out, hm, hpass.mono hs⟩

end

end DHTRouter
