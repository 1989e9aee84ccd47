import Fledger.Dht.Lookup
import Fledger.DhtStorage.Anchored

namespace DHTNode

open DHTRouter (ModuleMessage)

-- The first node knows the second one, and they are connected to each other.
structure Contact (x y : NodeID) (parties : NodeID → DHTNode) : Prop where
  active : y ∈ (parties x).router.core.activeNodes
  there  : (parties x).router.connected.contains y = true
  back   : (parties y).router.connected.contains x = true

variable [Sha256] [RealmReader] [Yaml (HashMap RealmID RealmStorage)] [Yaml MessageClosest]
  [Yaml MessageNeighbour] [Yaml MessageDest] [Yaml ModuleMessage]

-- All nodes stay connected to those they ask, accept the realm and have room for what they are sent,
-- and whatever they say can be read.
structure Gathers (nodes : Finset NodeID) (E : NodeID → NodeID → Prop) (rid : RealmID)
    (L : MessageNeighbour → Prop) (parties : NodeID → DHTNode) : Prop where
  contact  : ∀ x ∈ nodes, ∀ y ∈ nodes, E x y → Contact x y parties
  accepted : ∀ x ∈ nodes, (parties x).storage.config.acceptsRealm rid = true
  room     : ∀ x ∈ nodes, ∀ fcs, L (.flos fcs) → ∀ env, (parties x).storage.RoomFor env fcs
  replies  : ∀ x ∈ nodes, ∀ msg, L msg → ∀ ans ∈ (parties x).storage.replies msg, L ans

-- The nodes do forward, have room also for what they get from elsewhere, and are not restarted.
def gathering (nodes : Finset NodeID) (E : NodeID → NodeID → Prop) (rid : RealmID)
    (L : MessageNeighbour → Prop) : Setting where
  parties := Gathers nodes E rid L
  input parties x
    | .router ..          => True
    | .storage env input  => x ∈ nodes → env.evilNoForward = false ∧ 0 < env.fuel ∧
      (parties x).storage.RoomFor env input.write.flos
    | .restart ..         => x ∉ nodes

-- The nodes have the realm, which they keep.
structure Founded (nodes : Finset NodeID) (rid : RealmID) (parties : NodeID → DHTNode) : Prop where
  wf    : ∀ x ∈ nodes, (parties x).storage.Wf
  known : ∀ x ∈ nodes, rid ∈ (parties x).storage.realms

-- The node has got the flo, or a later version of it.
def gathered (x : NodeID) (rid : RealmID) (id : FloID) (v : UInt32) : Goal where
  output _ _   := False
  state z node := z = x ∧ node.storage.Holds rid id v

-- The messages can be read by the storage, and what they are wrapped in by the router; and the flos
-- can be announced.
structure Readable (L : MessageNeighbour → Prop) : Prop where
  message   : ∀ msg, L msg → Yaml.Lossless msg
  wrapper   : ∀ msg, L msg → ∀ w, NetworkWrapper.wrapYaml dhtStorageName msg = some w →
    Yaml.Lossless (ModuleMessage.neighbour w)
  announced : ∀ fcs, L (.flos fcs) → ∀ fc ∈ fcs, Messages.Announced fc.1

section Hop

variable {b : Setting} {g : Goal} {x y : NodeID} {w w' : NetworkWrapper}

-- Nothing is expected of the inputs of the routers.
def Setting.OpenRouters (b : Setting) : Prop :=
  ∀ {parties id env input}, b.input parties id (.router env input)

-- The packet goes from one router to the other one.
theorem inevitable_of_packet (hb : b.OpenRouters)
    (hr : w'.unwrapYaml ModuleMessage DHTRouter.dhtRouterName = some (.neighbour w))
    (h : network.Inevitable b g y (.router (.dhtRouter (.messageNeighbour x w)))) :
    network.Inevitable b g x (.router (.network (.networkWrapperToNetwork y w'))) := by
  refine .handled (R := (· = .router (.dhtRouter (.messageNeighbour x w))))
    (delivers_toNode (fun _ => ⟨DHTRouter.quietEnv, hb⟩) fun _ _ => ?_) fun _ ho => ho ▸ h
  obtain ⟨m, o, hm, hsub⟩ := DHTRouter.exists_message hr rfl
  exact ⟨m, o, hm, .inr ⟨_, List.mem_map_of_mem <| hsub <| List.mem_singleton_self _, rfl⟩⟩

theorem inevitable_of_neighbour (hb : b.OpenRouters)
    (hc : ∀ parties, b.parties parties → (parties x).router.connected.contains y = true)
    (hy : Yaml.Lossless (ModuleMessage.neighbour w))
    (h : network.Inevitable b g y (.router (.dhtRouter (.messageNeighbour x w)))) :
    network.Inevitable b g x (.storage (.routing (.messageNeighbour y w))) := by
  obtain ⟨w', hw, hr⟩ := DHTRouter.wrapperNetwork_of_lossless hy y
  refine .handled (R := (· = .router (.network (.networkWrapperToNetwork y w'))))
    (delivers_toRouter (fun _ => ⟨DHTRouter.quietEnv, hb⟩) fun {parties env} hp _ => ?_)
    fun _ ho => ho ▸ inevitable_of_packet hb hr h
  have hm : (parties x).router.message env (.dhtRouter (.messageNeighbour y w)) =
      some ((parties x).router, [.network (.networkWrapperToNetwork y w')]) := by
    simp only [DHTRouter.Messages.message, DHTRouter.Messages.msgDht, hc parties hp, if_true, hw]
    rfl
  exact ⟨_, _, hm, .inr ⟨_, List.mem_singleton_self _, rfl⟩⟩

end Hop

section Exchange

variable {nodes : Finset NodeID} {E : NodeID → NodeID → Prop} {rid : RealmID} {id : FloID}
  {v : UInt32} {L : MessageNeighbour → Prop} {x y z z' : NodeID} {w : NetworkWrapper}

-- All nodes have the realm, and one of them has the flo.
structure Offering (nodes : Finset NodeID) (rid : RealmID) (id : FloID) (v : UInt32) (y : NodeID)
    (parties : NodeID → DHTNode) : Prop extends Founded nodes rid parties where
  holds : (parties y).storage.Holds rid id v

def offering (nodes : Finset NodeID) (E : NodeID → NodeID → Prop) (rid : RealmID) (id : FloID)
    (v : UInt32) (L : MessageNeighbour → Prop) (y : NodeID) : Setting :=
  (gathering nodes E rid L).and (Offering nodes rid id v y)

structure Asks (nodes : Finset NodeID) (E : NodeID → NodeID → Prop) (L : MessageNeighbour → Prop)
    (x y : NodeID) : Prop where
  readable : Readable L
  asker    : x ∈ nodes
  asked    : y ∈ nodes
  edge     : E x y

omit [Yaml ModuleMessage] in
theorem openRouters_offering : (offering nodes E rid id v L y).OpenRouters :=
  trivial

omit [RealmReader] [Yaml (HashMap RealmID RealmStorage)] [Yaml MessageClosest] [Yaml MessageDest]
  [Yaml ModuleMessage] in
-- An honest node sends what it replies.
theorem filterMap_answer (m : Messages) {env : Env} (he : env.evilNoForward = false)
    (msg : MessageNeighbour) (origin : NodeID) :
    (m.answer env msg).filterMap (·.toNeighbour origin) =
      (m.replies msg).filterMap (·.toNeighbour origin) := by
  have hc : m.answer env =
      m.answer { fuel := 0, now := fun _ => 0, rnd := .zero, evilNoForward := false } :=
    Messages.answer_congr he
  rw [hc, Messages.replies, List.filterMap_filter]
  refine List.filterMap_congr fun ans _ => ?_
  by_cases hs : ans.isSent = true
  case pos => rw [if_pos hs]
  case neg => rw [if_neg hs, MessageNeighbour.toNeighbour, if_neg hs]

omit [Yaml ModuleMessage] in
-- What is not a flo only leads to an answer.
theorem message_of_neighbour {m : Messages} {env : Env} {msg : MessageNeighbour} {origin : NodeID}
    (hu : w.unwrapYaml MessageNeighbour dhtStorageName = some msg) (hf : ∀ fcs, msg ≠ .flos fcs)
    (he : env.evilNoForward = false) :
    m.message env (.routing (.messageNeighbour origin w)) =
      some (m, (m.replies msg).filterMap (·.toNeighbour origin)) := by
  simp only [Messages.message, Messages.msgDhtRouter, hu]
  rw [← filterMap_answer m he]
  cases msg
  case flos fcs => exact absurd rfl (hf fcs)
  all_goals rfl

omit [RealmReader] [Yaml (HashMap RealmID RealmStorage)] [Yaml MessageClosest] [Yaml MessageDest]
  [Yaml ModuleMessage] in
theorem mem_of_replies {m : Messages} {origin : NodeID} {msg ans : MessageNeighbour}
    (ha : ans ∈ m.replies msg) (hw : NetworkWrapper.wrapYaml dhtStorageName ans = some w) :
    .routing (.messageNeighbour origin w) ∈ (m.replies msg).filterMap (·.toNeighbour origin) :=
  List.mem_filterMap.mpr ⟨ans, ha, by
    rw [MessageNeighbour.toNeighbour, if_pos (List.mem_filter.mp ha).2, hw, Option.map_some]⟩

omit [Yaml ModuleMessage] in
-- There is an environment in which the node handles what it gets from another node.
theorem offering_allowed {parties : NodeID → DHTNode} {msg : MessageNeighbour}
    (hb : (offering nodes E rid id v L y).parties parties)
    (hu : w.unwrapYaml MessageNeighbour dhtStorageName = some msg) (hl : L msg) :
    ∃ env, (offering nodes E rid id v L y).input parties z
      (.storage env (.routing (.messageNeighbour z' w))) := by
  refine ⟨{ Sync.sharedEnv with fuel := 1 }, fun hz => ⟨rfl, Nat.one_pos, ?_⟩⟩
  simp only [InternIn.write, hu]
  cases msg
  case flos fcs => exact hb.1.room z hz fcs hl _
  all_goals trivial

-- A node answers a message, unless what is looked forward to has come true already.
theorem gathered_of_answer {msg : MessageNeighbour} {A : MessageNeighbour → Prop}
    (hy : Readable L) (hz : z ∈ nodes)
    (hc : ∀ parties, Gathers nodes E rid L parties →
      (parties z).router.connected.contains z' = true)
    (hu : w.unwrapYaml MessageNeighbour dhtStorageName = some msg) (hl : L msg)
    (hf : ∀ fcs, msg ≠ .flos fcs)
    (ha : ∀ parties, Gathers nodes E rid L parties → Offering nodes rid id v y parties →
      (z = x ∧ (parties z).storage.Holds rid id v) ∨
        ∃ ans ∈ (parties z).storage.replies msg, A ans)
    (hr : ∀ ans, A ans → L ans → ∀ w, w.unwrapYaml MessageNeighbour dhtStorageName = some ans →
      network.Inevitable (offering nodes E rid id v L y) (gathered x rid id v) z'
        (.router (.dhtRouter (.messageNeighbour z w)))) :
    network.Inevitable (offering nodes E rid id v L y) (gathered x rid id v) z
      (.router (.dhtRouter (.messageNeighbour z' w))) := by
  refine .handled (R := fun o => ∃ ans w, A ans ∧ L ans ∧
    NetworkWrapper.wrapYaml dhtStorageName ans = some w ∧
    o = .storage (.routing (.messageNeighbour z' w)))
    (delivers_toStorage (fun hb => offering_allowed hb hu hl) fun {parties env} hp hi => ?_) ?_
  case refine_2 =>
    rintro o ⟨ans, w, hans, hlans, hw, rfl⟩
    refine inevitable_of_neighbour openRouters_offering (fun parties hp => hc parties hp.1)
      (hy.wrapper ans hlans w hw) ?_
    exact hr ans hans hlans w <| NetworkWrapper.unwrapYaml_of_wrapYaml (hy.message ans hlans) hw
  case refine_1 =>
    refine ⟨_, _, message_of_neighbour hu hf (hi hz).1, ?_⟩
    rcases ha parties hp.1 hp.2 with hh | ⟨ans, hans, hA⟩
    case inl => exact .inl hh
    case inr =>
      have hlans := hp.1.replies z hz msg hl ans hans
      obtain ⟨w', hw, _⟩ := NetworkWrapper.wrapYaml_of_lossless (hy.message ans hlans) dhtStorageName
      exact .inr ⟨_, List.mem_map_of_mem <| mem_of_replies hans hw, ans, w', hA, hlans, hw, rfl⟩

-- The flo comes to the node which has asked for it.
theorem gathered_of_flos {fcs : List FloCuckoo} (hy : Readable L) (hx : x ∈ nodes)
    (hl : L (.flos fcs)) (hu : w.unwrapYaml MessageNeighbour dhtStorageName = some (.flos fcs))
    (hf : ∃ fc ∈ fcs, fc.1.realm = rid ∧ fc.1.floId = id ∧ v ≤ fc.1.version) :
    network.Inevitable (offering nodes E rid id v L y) (gathered x rid id v) x
      (.router (.dhtRouter (.messageNeighbour y w))) := by
  refine .handled (R := fun _ => False)
    (delivers_toStorage (fun hb => offering_allowed hb hu hl) fun {parties env} hp hi => ?_)
    fun _ h => h.elim
  obtain ⟨_, hfuel, hr⟩ := hi hx
  have hroom : (parties x).storage.RoomFor env fcs := by
    simp only [InternIn.write, hu] at hr
    exact hr
  obtain ⟨m, hs⟩ := Messages.exists_storeFloCuckoos_of_room hfuel hroom (hy.announced fcs hl)
  have hm : (parties x).storage.message env (.routing (.messageNeighbour y w)) = some (m, []) := by
    simp only [Messages.message, Messages.msgDhtRouter, hu, Messages.msgNeighbour, hs]
    rfl
  obtain ⟨⟨flo, cuckoos⟩, hfc, rfl, rfl, hv⟩ := hf
  have hr := Messages.received_storeFloCuckoos hs (hp.2.wf x hx) hroom
  obtain ⟨s, fs, hls, hfs, hv'⟩ := hr.holds hfc (hp.2.known x hx)
  exact ⟨m, [], hm, .inl ⟨rfl, s, fs, hls, hfs, UInt32.le_trans hv hv'⟩⟩

-- The messages of an exchange, the last one first.

theorem gathered_of_requestFlos (h : Asks nodes E L x y) {ids : List FloID} (hi : id ∈ ids)
    (hl : L (.requestFlos rid ids))
    (hu : w.unwrapYaml MessageNeighbour dhtStorageName = some (.requestFlos rid ids)) :
    network.Inevitable (offering nodes E rid id v L y) (gathered x rid id v) y
      (.router (.dhtRouter (.messageNeighbour x w))) := by
  refine gathered_of_answer (A := fun ans => ∃ fcs, ans = .flos fcs ∧
    ∃ fc ∈ fcs, fc.1.realm = rid ∧ fc.1.floId = id ∧ v ≤ fc.1.version) h.readable h.asked
    (fun parties hp => (hp.contact x h.asker y h.asked h.edge).back) hu hl nofun ?_ ?_
  case refine_1 =>
    intro parties _ ho
    obtain ⟨s, fs, hls, hf, hv⟩ := ho.holds
    obtain ⟨fcs, hm, hfc⟩ := Messages.mem_replies_requestFlos hls hf hi
    have hosts := (ho.wf y h.asked).hosts hls
    exact .inr ⟨_, hm, fcs, rfl, _, hfc, hosts.realm hf, hosts.reachable.wf.keyed hf, hv⟩
  case refine_2 =>
    rintro _ ⟨fcs, rfl, hf⟩ hl w hw
    exact gathered_of_flos h.readable h.asker hl hw hf

theorem gathered_of_availableFlos (h : Asks nodes E L x y) {metas : List FloMeta}
    (hm : ∃ floMeta ∈ metas, floMeta.id = id ∧ v ≤ floMeta.version)
    (hl : L (.availableFlos rid metas))
    (hu : w.unwrapYaml MessageNeighbour dhtStorageName = some (.availableFlos rid metas)) :
    network.Inevitable (offering nodes E rid id v L y) (gathered x rid id v) x
      (.router (.dhtRouter (.messageNeighbour y w))) := by
  obtain ⟨floMeta, hm, rfl, hv⟩ := hm
  refine gathered_of_answer (A := fun ans => ∃ ids, ans = .requestFlos rid ids ∧ floMeta.id ∈ ids)
    h.readable h.asker (fun parties hp => (hp.contact x h.asker y h.asked h.edge).there) hu hl nofun
    ?_ ?_
  case refine_1 =>
    intro parties _ ho
    by_cases hh : (parties x).storage.Holds rid floMeta.id floMeta.version
    case pos =>
      obtain ⟨s, fs, hls, hf, hv'⟩ := hh
      exact .inl ⟨rfl, s, fs, hls, hf, UInt32.le_trans hv hv'⟩
    case neg =>
      obtain ⟨s, hls⟩ := HashMap.mem_iff_lookup.mp <| ho.known x h.asker
      obtain ⟨ids, hr, hi⟩ := Messages.mem_replies_availableFlos hls hm hh
      exact .inr ⟨_, hr ▸ List.mem_singleton_self _, ids, rfl, hi⟩
  case refine_2 =>
    rintro _ ⟨ids, rfl, hi⟩ hl w hw
    exact gathered_of_requestFlos h hi hl hw

theorem gathered_of_requestFloMetas (h : Asks nodes E L x y) (hl : L (.requestFloMetas rid))
    (hu : w.unwrapYaml MessageNeighbour dhtStorageName = some (.requestFloMetas rid)) :
    network.Inevitable (offering nodes E rid id v L y) (gathered x rid id v) y
      (.router (.dhtRouter (.messageNeighbour x w))) := by
  refine gathered_of_answer (A := fun ans => ∃ metas, ans = .availableFlos rid metas ∧
    ∃ floMeta ∈ metas, floMeta.id = id ∧ v ≤ floMeta.version) h.readable h.asked
    (fun parties hp => (hp.contact x h.asker y h.asked h.edge).back) hu hl nofun ?_ ?_
  case refine_1 =>
    intro parties _ ho
    obtain ⟨s, fs, hls, hf, hv⟩ := ho.holds
    have hid := ((ho.wf y h.asked).hosts hls).reachable.wf.keyed hf
    refine .inr ⟨_, Messages.replies_requestFloMetas hls hf ▸ List.mem_singleton_self _, _, rfl, ?_⟩
    exact ⟨_, List.mem_map_of_mem <| HashMap.mem_values.mpr ⟨_, hf⟩, hid, hv⟩
  case refine_2 =>
    rintro _ ⟨metas, rfl, hm⟩ hl w hw
    exact gathered_of_availableFlos h hm hl hw

theorem gathered_of_availableRealmIds (h : Asks nodes E L x y) {rids : List RealmID}
    (hr : rid ∈ rids) (hl : L (.availableRealmIds rids))
    (hu : w.unwrapYaml MessageNeighbour dhtStorageName = some (.availableRealmIds rids)) :
    network.Inevitable (offering nodes E rid id v L y) (gathered x rid id v) x
      (.router (.dhtRouter (.messageNeighbour y w))) := by
  refine gathered_of_answer (A := (· = .requestFloMetas rid)) h.readable h.asker
    (fun parties hp => (hp.contact x h.asker y h.asked h.edge).there) hu hl nofun ?_ ?_
  case refine_1 =>
    intro parties hp _
    refine .inr ⟨_, ?_, rfl⟩
    rw [Messages.replies_availableRealmIds]
    refine List.mem_append_right _ <| List.mem_map_of_mem <| List.mem_filter.mpr ⟨hr, ?_⟩
    exact hp.accepted x h.asker
  case refine_2 =>
    rintro _ rfl hl w hw
    exact gathered_of_requestFloMetas h hl hw

theorem gathered_of_requestRealmIds (h : Asks nodes E L x y) (hl : L .requestRealmIds)
    (hu : w.unwrapYaml MessageNeighbour dhtStorageName = some .requestRealmIds) :
    network.Inevitable (offering nodes E rid id v L y) (gathered x rid id v) y
      (.router (.dhtRouter (.messageNeighbour x w))) := by
  refine gathered_of_answer (A := fun ans => ∃ rids, ans = .availableRealmIds rids ∧ rid ∈ rids)
    h.readable h.asked (fun parties hp => (hp.contact x h.asker y h.asked h.edge).back) hu hl nofun
    ?_ ?_
  case refine_1 =>
    intro parties _ ho
    have hk := ho.known y h.asked
    exact .inr ⟨_, Messages.replies_requestRealmIds hk ▸ List.mem_singleton_self _, _, rfl,
      AList.mem_keys.mp hk⟩
  case refine_2 =>
    rintro _ ⟨rids, rfl, hr⟩ hl w hw
    exact gathered_of_availableRealmIds h hr hl hw

-- What is broadcast comes to all nodes which are asked.
theorem gathered_of_broadcast {msg : MessageNeighbour} (hy : Readable L) (hl : L msg)
    (hc : ∀ parties, Gathers nodes E rid L parties → z' ∈ (parties z).router.core.activeNodes)
    (hw : NetworkWrapper.wrapYaml dhtStorageName msg = some w)
    (hr : w.unwrapYaml MessageNeighbour dhtStorageName = some msg →
      network.Inevitable (offering nodes E rid id v L y) (gathered x rid id v) z'
        (.router (.dhtRouter (.messageNeighbour z w)))) :
    network.Inevitable (offering nodes E rid id v L y) (gathered x rid id v) z
      (.storage (.routing (.messageBroadcast w))) := by
  obtain ⟨w', hw', hu⟩ :=
    NetworkWrapper.wrapYaml_of_lossless (hy.wrapper msg hl w hw) DHTRouter.dhtRouterName
  refine .handled (R := (· = .router (.network (.networkWrapperToNetwork z' w'))))
    (delivers_toRouter (fun _ => ⟨DHTRouter.quietEnv, openRouters_offering⟩)
      fun {parties env} hp _ => ?_)
    fun o ho => ho ▸ inevitable_of_packet openRouters_offering hu <|
      hr <| NetworkWrapper.unwrapYaml_of_wrapYaml (hy.message msg hl) hw
  have hf : (ModuleMessage.neighbour w).wrapperNetwork =
      fun dst => some (.network (.networkWrapperToNetwork dst w')) := by
    funext dst
    rw [ModuleMessage.wrapperNetwork, hw', Option.map_some]
  have hm : (parties z).router.message env (.dhtRouter (.messageBroadcast w)) =
      some ((parties z).router, (parties z).router.core.activeNodes.map fun dst =>
        .network (.networkWrapperToNetwork dst w')) := by
    simp only [DHTRouter.Messages.message, DHTRouter.Messages.msgDht, hf]
    exact Option.bind_eq_some_iff.mpr ⟨_, List.mapM_pure, rfl⟩
  exact ⟨_, _, hm, .inr ⟨_, List.mem_map_of_mem <| List.mem_map_of_mem <| hc parties hp.1, rfl⟩⟩

-- A node which asks those it is connected to gets each flo which one of them has.
theorem sync_inevitable (h : Asks nodes E L x y) (hl : L .requestRealmIds) (env : Env)
    (node : DHTNode) :
    ∃ node' out, node.handle x (.storage env (.storage .syncFromNeighbors)) = some (node', out) ∧
      ∃ o ∈ out,
        network.Inevitable (offering nodes E rid id v L y) (gathered x rid id v) x o := by
  obtain ⟨w, hw, _⟩ :=
    NetworkWrapper.wrapYaml_of_lossless (h.readable.message _ hl) dhtStorageName
  have hm : node.storage.message env (.storage .syncFromNeighbors) =
      some (node.storage, [.routing (.messageBroadcast w)]) := by
    simp only [Messages.message, Messages.msgDhtStorage, MessageNeighbour.toBroadcast,
      MessageNeighbour.isSent, if_true, hw]
    rfl
  refine ⟨_, _, handle_of_storage hm, _, List.mem_singleton_self _, ?_⟩
  exact gathered_of_broadcast h.readable hl
    (fun parties hp => (hp.contact x h.asker y h.asked h.edge).active) hw
    fun hu => gathered_of_requestRealmIds h hl hu

-- Nothing gets lost at a node which has room and is not restarted.
theorem grows_of_takes {parties parties' : NodeID → DHTNode}
    {e : Cluster.Event NodeID Input Output} (hx : x ∈ nodes) (hw : (parties x).storage.Wf)
    (ht : network.Takes (gathering nodes E rid L) parties parties' e) :
    (parties' x).storage.Wf ∧
    (∀ rid ∈ (parties x).storage.realms, rid ∈ (parties' x).storage.realms) ∧
    ∀ {rid id v}, (parties x).storage.Holds rid id v → (parties' x).storage.Holds rid id v := by
  obtain ⟨z, input, out⟩ := e
  obtain ⟨hi, node, hs, rfl⟩ := ht
  by_cases he : x = z
  case neg =>
    rw [Function.update_of_ne he]
    exact ⟨hw, fun _ hr => hr, fun hh => hh⟩
  case pos =>
    subst he
    rw [Function.update_self]
    cases input
    case restart => exact absurd hx hi
    case router  =>
      obtain ⟨_, _, hs⟩ := Option.bind_eq_some_iff.mp hs
      cases hs
      exact ⟨hw, fun _ hr => hr, fun hh => hh⟩
    case storage =>
      obtain ⟨_, _, hm, rfl, _⟩ := handle_storage hs
      obtain ⟨_, _, hroom⟩ := hi hx
      exact ⟨hw.message hm, fun _ hr => Messages.mem_realms_of_message hm hr,
        fun hh => hh.message hm hw hroom⟩

theorem Founded.takes {parties parties' : NodeID → DHTNode}
    {e : Cluster.Event NodeID Input Output} (h : Founded nodes rid parties)
    (ht : network.Takes (gathering nodes E rid L) parties parties' e) :
    Founded nodes rid parties' where
  wf x hx    := (grows_of_takes hx (h.wf x hx) ht).1
  known x hx := (grows_of_takes hx (h.wf x hx) ht).2.1 rid (h.known x hx)

-- In a run in which every message is delivered at some time, and the nodes ask again and again, a
-- flo comes to all nodes to which there is a way, and stays there.
theorem spreads {run : Cluster.Run NodeID DHTNode Input Output}
    (hf : network.Fair (gathering nodes E rid L) run) (hr : Readable L) (hl : L .requestRealmIds)
    (h₀ : Founded nodes rid (run.parties 0))
    (hs : ∀ x ∈ nodes, ∀ y ∈ nodes, E x y → ∀ n, ∃ m ≥ n, ∃ env out,
      run.events m = ⟨x, .storage env (.storage .syncFromNeighbors), out⟩)
    {n : Nat} (hz : z ∈ nodes) (hh : (run.parties n z).storage.Holds rid id v)
    (hp : Relation.ReflTransGen (fun y x => y ∈ nodes ∧ x ∈ nodes ∧ E x y) z x) :
    ∃ m, ∀ k ≥ m, (run.parties k x).storage.Holds rid id v := by
  have hfounded (n : Nat) : Founded nodes rid (run.parties n) :=
    hf.keeps (fun _ ht h => h.takes ht) h₀ (Nat.zero_le n)
  have hkeeps {x} (hx : x ∈ nodes) {n m} (hh : (run.parties n x).storage.Holds rid id v)
      (hn : n ≤ m) : (run.parties m x).storage.Holds rid id v := by
    induction hn
    case refl           => exact hh
    case step m _ hrest => exact (grows_of_takes hx ((hfounded m).wf x hx) (hf.steps m)).2.2 hrest
  induction hp
  case refl => exact ⟨n, fun k hk => hkeeps hz hh hk⟩
  case tail y x _ he hrest =>
    obtain ⟨hy, hx, he⟩ := he
    obtain ⟨m, hm⟩ := hrest
    obtain ⟨k, hk, env, out, hev⟩ := hs x hx y hy he m
    obtain ⟨k, rfl⟩ := Nat.exists_eq_add_of_le hk
    obtain ⟨_, _, ht, _⟩ := hev ▸ hf.steps (m + k)
    obtain ⟨_, _, ht', o, ho, hi⟩ :=
      sync_inevitable (v := v) ⟨hr, hx, hy, he⟩ hl env (run.parties (m + k) x)
    cases Option.some.inj <| ht'.symm.trans ht
    rw [← show (run.events (m + k)).out = out by rw [hev]] at ho
    have hafter := hf.after fun k hk => Offering.mk (hfounded k) (hm k hk)
    obtain ⟨i, _, ⟨_, rfl, hg⟩ | ⟨_, _, hg⟩⟩ := hi.eventually hafter (n := k) (by rw [hev]) ho
    case inl => exact ⟨_, fun j hj => hkeeps hx hg hj⟩
    case inr => exact hg.elim

end Exchange

end DHTNode

namespace DHTNode

open DHTRouter (ModuleMessage)
open Sync (sharedId sharedStorage sharing sharing_lookup sharing_realms wrapper)

-- Both nodes have the realm. One of them has a page of it, and the other one asks again and again.
namespace Pair

attribute [local instance] Sha256.rolling Sync.sharedReader Sync.sharedRealms Sync.sharedClosest
  Sync.sharedDest

def pageStorage : RealmStorage :=
  sharedStorage.taken 0 0 page

-- The storage with the page.
def full : Messages :=
  (sharing.insertRealm sharedId pageStorage).store.mapRealm sharedId
    (·.storeCuckooIds page.floId [])

-- What the nodes say to each other.
inductive Said
  | requestRealmIds
  | availableRealmIds
  | requestFloMetas
  | availableFlo
  | availableFlos
  | requestFlos
  | flos

def Said.msg : Said → MessageNeighbour
  | requestRealmIds   => .requestRealmIds
  | availableRealmIds => .availableRealmIds [sharedId]
  | requestFloMetas   => .requestFloMetas sharedId
  | availableFlo      => .availableFlos sharedId sharedStorage.getFloMetas
  | availableFlos     => .availableFlos sharedId pageStorage.getFloMetas
  | requestFlos       => .requestFlos sharedId [page.floId]
  | flos              => .flos [(page, [])]

-- What the nodes answer, with the page or without it.
def Said.answer (paged : Bool) : Said → Option Said
  | requestRealmIds   => some availableRealmIds
  | availableRealmIds => some requestFloMetas
  | requestFloMetas   => if paged then some availableFlos else some availableFlo
  | availableFlo      => none
  | availableFlos     => if paged then none else some requestFlos
  | requestFlos       => if paged then some flos else none
  | flos              => none

def Said.src : Said → NodeID
  | requestRealmIds | requestFloMetas | requestFlos              => asking
  | availableRealmIds | availableFlo | availableFlos | flos => holding

def Said.name : Said → String
  | requestRealmIds   => "RequestRealmIDs"
  | availableRealmIds => "AvailableRealmIDs"
  | requestFloMetas   => "RequestFloMetas"
  | availableFlo      => "AvailableFlo"
  | availableFlos     => "AvailableFlos"
  | requestFlos       => "RequestFlos"
  | flos              => "Flos"

abbrev pairNeighbour : Yaml MessageNeighbour where
  toString
    | .requestRealmIds        => some Said.requestRealmIds.name
    | .availableRealmIds _    => some Said.availableRealmIds.name
    | .requestFloMetas _      => some Said.requestFloMetas.name
    | .availableFlos _ metas  =>
      if metas.length = 1 then some Said.availableFlo.name else some Said.availableFlos.name
    | .requestFlos ..         => some Said.requestFlos.name
    | .flos _                 => some Said.flos.name
  fromStr name :=
    [.requestRealmIds, .availableRealmIds, .requestFloMetas, .availableFlo, .availableFlos,
      .requestFlos, .flos].find? (fun s : Said => s.name = name) |>.map Said.msg

abbrev pairRouter : Yaml ModuleMessage where
  toString
    | .neighbour msg => some msg.msg
    | _              => none
  fromStr name := some (.neighbour (wrapper name))

attribute [local instance] pairNeighbour pairRouter

theorem Said.wrapYaml (s : Said) :
    NetworkWrapper.wrapYaml dhtStorageName s.msg = some (wrapper s.name) := by
  have hlen : sharedStorage.getFloMetas.length = 1 := by decide +kernel
  have hlen' : pageStorage.getFloMetas.length ≠ 1 := by decide +kernel
  cases s <;> simp [NetworkWrapper.wrapYaml, Yaml.toString, msg, hlen, hlen', wrapper]

theorem Said.unwrapYaml (s : Said) :
    (wrapper s.name).unwrapYaml MessageNeighbour dhtStorageName = some s.msg := by
  cases s <;> rfl

theorem Said.lossless (s : Said) : Yaml.Lossless s.msg := by
  have hw := s.wrapYaml
  obtain ⟨name, hs, hn⟩ := Option.map_eq_some_iff.mp hw
  cases hn
  exact ⟨s.name, hs, s.unwrapYaml⟩

section Storages

theorem roomy_sharedStorage : sharedStorage.Roomy page :=
  wf_sharedStorage.roomy (by decide +kernel) (by decide +kernel)

theorem accepts_page : (sharedStorage.adoptCuckoo page).accepts 0 page = true := by
  decide +kernel

theorem pageStorage_eq : pageStorage = sharedStorage.put 0 page := by
  rw [pageStorage, RealmStorage.taken]
  exact if_pos accepts_page

theorem lookup_pageStorage : pageStorage.flos.lookup page.floId = some (.ofFlo 0 page) := by
  rw [pageStorage_eq, RealmStorage.lookup_put, if_pos rfl]

theorem wf_pageStorage : pageStorage.Wf :=
  wf_sharedStorage.taken 0 0 page

theorem page_realm : page.realm = sharedId :=
  rfl

theorem lookup_full {rid : RealmID} {s : RealmStorage} :
    full.realms.lookup rid = some s ↔ rid = sharedId ∧ s = pageStorage := by
  rw [full, Messages.mapRealm, HashMap.lookup_modify, Messages.store_realms, Messages.insertRealm,
    HashMap.lookup_insert_eq, HashMap.lookup_insert_eq, if_pos rfl]
  by_cases hr : rid = sharedId
  case pos => simp [hr, RealmStorage.storeCuckooIds, eq_comm]
  case neg =>
    simp only [hr, false_and, iff_false, if_false]
    exact fun hl => hr (sharing_lookup.mp hl).1

-- The page is handed over.
theorem storeFloCuckoo_sharing :
    sharing.storeFloCuckoo storingEnv (page, []) = some full := by
  obtain ⟨isNew, hu⟩ := roomy_sharedStorage.upsertFlo Nat.one_pos 0 0
  have ht : sharing.takeFlo storingEnv page =
      some (sharing.insertRealm sharedId pageStorage, isNew) := by
    have hl : sharing.realms.lookup sharedId = some sharedStorage := lookup_sharing
    rw [Messages.takeFlo, page_realm, hl]
    exact Option.bind_eq_some_iff.mpr ⟨_, hu, rfl⟩
  have hn : isNew = true := (news_realmNet holding).isNew (Messages.takes_of_takeFlo ht)
  subst hn
  have hs := Messages.storeFlo_eq_some.mpr ⟨_, _, ht, rfl, rfl⟩
  rw [Messages.storeFloCuckoo, hs, if_pos rfl, page_realm]
  rfl

def stored : Bool → RealmStorage
  | true  => pageStorage
  | false => sharedStorage

def storage : Bool → Messages
  | true  => full
  | false => sharing

theorem lookup_storage {paged : Bool} {rid : RealmID} {s : RealmStorage} :
    (storage paged).realms.lookup rid = some s ↔ rid = sharedId ∧ s = stored paged := by
  cases paged
  case true  => exact lookup_full
  case false => exact sharing_lookup

theorem keys_storage (paged : Bool) : (storage paged).realms.keys = [sharedId] := by
  refine List.perm_singleton.mp <|
    List.perm_ext_iff_of_nodup (AList.keys_nodup _) (List.nodup_singleton _) |>.mpr fun rid => ?_
  rw [AList.mem_keys.symm, HashMap.mem_iff_lookup, List.mem_singleton]
  simp [lookup_storage]

theorem config_storage (paged : Bool) : (storage paged).config = {} := by
  have hs : sharing.config = {} := Messages.store_config _
  cases paged
  case true  => exact (Messages.store_config <| sharing.insertRealm sharedId pageStorage).trans hs
  case false => exact hs

theorem wf_storage (paged : Bool) : (storage paged).Wf := by
  cases paged
  case true  => exact wf_sharing.storeFloCuckoo storeFloCuckoo_sharing
  case false => exact wf_sharing

theorem roomy_stored (paged : Bool) : (stored paged).Roomy page := by
  cases paged
  case true  => exact wf_pageStorage.roomy (by decide +kernel) (by decide +kernel)
  case false => exact roomy_sharedStorage

theorem stored_syncAvailable (paged : Bool) :
    (stored paged).syncAvailable sharedStorage.getFloMetas = none ∧
    (stored paged).syncAvailable pageStorage.getFloMetas =
      if paged then none else some [page.floId] := by
  decide +kernel +revert

theorem Said.replies (s : Said) (paged : Bool) :
    (storage paged).replies s.msg = (s.answer paged).toList.map Said.msg := by
  have hl : (storage paged).realms.lookup sharedId = some (stored paged) :=
    lookup_storage.mpr ⟨rfl, rfl⟩
  have hm := HashMap.mem_iff_lookup.mpr ⟨_, hl⟩
  obtain ⟨hone, hboth⟩ := stored_syncAvailable paged
  cases s
  case requestRealmIds   =>
    rw [msg, Messages.replies_requestRealmIds hm, keys_storage]
    rfl
  case availableRealmIds =>
    have ha : [sharedId].filter (storage paged).config.acceptsRealm = [sharedId] := by
      rw [config_storage]
      rfl
    simp [msg, Messages.replies_availableRealmIds, ha, hm, answer]
  case requestFloMetas   =>
    have hf : ∃ id fs, (stored paged).flos.lookup id = some fs := by
      cases paged
      case true  => exact ⟨_, _, lookup_pageStorage⟩
      case false => exact ⟨_, _, Sync.sharedStorage_lookup⟩
    obtain ⟨_, _, hf⟩ := hf
    rw [msg, Messages.replies_requestFloMetas hl hf, answer]
    cases paged <;> exact rfl
  case availableFlo      =>
    simp [msg, Messages.replies, Messages.answer, hl, hone, answer]
  case availableFlos     =>
    cases paged <;>
      simp [msg, Messages.replies, Messages.answer, hl, hboth, answer, MessageNeighbour.isSent]
  case requestFlos       =>
    cases paged
    case true  =>
      have hg : (stored true).getFloCuckoo page.floId = some (page, []) :=
        RealmStorage.getFloCuckoo_eq_some.mpr ⟨_, lookup_pageStorage, rfl, rfl⟩
      simp [msg, Messages.replies, Messages.answer, hl, hg, answer, MessageNeighbour.isSent]
    case false =>
      have hn : (stored false).getFloCuckoo page.floId = none := by decide +kernel
      simp [msg, Messages.replies, Messages.answer, hl, hn, answer, MessageNeighbour.isSent]
  case flos              => rfl

end Storages

def other (x : NodeID) : NodeID :=
  if x = asking then holding else asking

-- The second node has the page from the start.
def net (paged : Bool) (x : NodeID) : DHTNode where
  router  := { DHTRouter.Messages.new x {} with
    core      := (Kademlia.new x {}).knowing [other x]
    connected := [other x]
  }
  storage := storage (if x = asking then paged else true)

-- Whether the first node has the page while this is said: it does not when it asks for it.
def Said.paged (paged : Bool) : Said → Bool
  | requestFlos | flos => false
  | _                  => paged

-- Whether the node which gets the message has the page.
def Said.hearer (s : Said) (paged : Bool) : Bool :=
  if other s.src = asking then s.paged paged else true

-- Who does what next, and whether the first node has the page by then.
inductive Stage
  | sync (paged : Bool)
  | broadcast (paged : Bool)
  | sent (paged : Bool) (s : Said)
  | packet (paged : Bool) (s : Said)
  | heard (paged : Bool) (s : Said)

def Stage.paged : Stage → Bool
  | sync paged | broadcast paged                  => paged
  | sent paged s | packet paged s | heard paged s => s.paged paged

def Stage.next : Stage → Stage
  | sync paged        => broadcast paged
  | broadcast paged   => packet paged .requestRealmIds
  | sent paged s      => packet paged s
  | packet paged s    => heard paged s
  | heard _ .flos     => sync true
  | heard paged s     => (s.answer (s.hearer paged)).elim (sync paged) (sent paged)

def wire (s : Said) : NetworkWrapper where
  moduleName := DHTRouter.dhtRouterName
  msg        := s.name

def Stage.event : Stage → Cluster.Event NodeID Input Output
  | sync _         => {
      party := asking
      input := .storage storingEnv (.storage .syncFromNeighbors)
      out   := [.storage (.routing (.messageBroadcast (wrapper Said.requestRealmIds.name)))]
    }
  | broadcast _    => {
      party := asking
      input := .router DHTRouter.quietEnv
        (.dhtRouter (.messageBroadcast (wrapper Said.requestRealmIds.name)))
      out   := [.router (.network (.networkWrapperToNetwork holding (wire .requestRealmIds)))]
    }
  | sent _ s       => {
      party := s.src
      input := .router DHTRouter.quietEnv
        (.dhtRouter (.messageNeighbour (other s.src) (wrapper s.name)))
      out   := [.router (.network (.networkWrapperToNetwork (other s.src) (wire s)))]
    }
  | packet _ s     => {
      party := other s.src
      input := .router DHTRouter.quietEnv (.network (.networkWrapperFromNetwork s.src (wire s)))
      out   := [.router (.dhtRouter (.messageNeighbour s.src (wrapper s.name)))]
    }
  | heard paged s  => {
      party := other s.src
      input := .storage storingEnv (.routing (.messageNeighbour s.src (wrapper s.name)))
      out   := (s.answer (s.hearer paged)).toList.map fun ans =>
        .storage (.routing (.messageNeighbour s.src (wrapper ans.name)))
    }

theorem Said.src_answer {s ans : Said} {paged : Bool} (h : s.answer paged = some ans) :
    ans.src = other s.src ∧ other ans.src = s.src := by
  cases s <;> cases paged <;> cases h <;> exact ⟨rfl, rfl⟩

theorem Stage.next_heard {s ans : Said} {paged : Bool}
    (h : s.answer (s.hearer paged) = some ans) : (heard paged s).next = sent paged ans := by
  cases s
  case flos => cases h
  all_goals exact congrArg (Option.elim · (sync paged) (sent paged)) h

theorem Stage.paged_next {t : Stage} (h : ∀ paged, t ≠ heard paged .flos) :
    t.next.paged = t.paged := by
  cases t
  case heard paged s =>
    cases s
    case flos => exact absurd rfl (h paged)
    all_goals cases paged <;> rfl
  all_goals rfl

theorem Stage.handed_on (t : Stage) : ∀ o ∈ t.event.out, ∀ j,
    (∃ input, network.carries t.event.party o j input) →
      t.next.event.party = j ∧ network.carries t.event.party o j t.next.event.input := by
  rintro o ho j ⟨input, hc⟩
  cases t
  case sync | broadcast | sent | packet =>
    cases List.mem_singleton.mp ho
    cases hc
    exact ⟨rfl, by constructor⟩
  case heard paged s =>
    obtain ⟨ans, ha, rfl⟩ := List.mem_map.mp ho
    have ha := Option.mem_toList.mp ha
    obtain ⟨hs, hdst⟩ := Said.src_answer ha
    cases hc
    rw [next_heard ha]
    have hc : network.carries (other s.src)
        (.storage (.routing (.messageNeighbour s.src (wrapper ans.name)))) (other s.src)
        (.router DHTRouter.quietEnv
          (.dhtRouter (.messageNeighbour s.src (wrapper ans.name)))) := .toRouter _
    refine ⟨hs, ?_⟩
    rw [event, hdst]
    exact hc

theorem Said.toNeighbour (s : Said) (dst : NodeID) :
    s.msg.toNeighbour dst = some (.routing (.messageNeighbour dst (wrapper s.name))) := by
  have hs : s.msg.isSent = true := by
    cases s <;> decide +kernel
  rw [MessageNeighbour.toNeighbour, if_pos hs, s.wrapYaml, Option.map_some]

theorem Said.filterMap_toNeighbour (ss : List Said) (dst : NodeID) :
    (ss.map Said.msg).filterMap (·.toNeighbour dst) =
      ss.map fun s => .routing (.messageNeighbour dst (wrapper s.name)) := by
  rw [List.filterMap_map, ← List.filterMap_eq_map]
  exact List.filterMap_congr fun s _ => s.toNeighbour dst

theorem activeNodes_net (paged : Bool) : (net paged asking).router.core.activeNodes = [holding] := by
  cases paged <;> decide +kernel

-- A step of a node which changes nothing.
theorem Stage.handle {t : Stage} (h : ∀ paged, t ≠ heard paged .flos) :
    (net t.paged t.event.party).handle t.event.party t.event.input =
      some (net t.paged t.event.party, t.event.out) := by
  cases t
  case sync paged => cases paged <;> rfl
  case broadcast paged =>
    have hm : (net paged asking).router.msgDht
        (.messageBroadcast (wrapper Said.requestRealmIds.name)) =
          some [.network (.networkWrapperToNetwork holding (wire .requestRealmIds))] := by
      rw [DHTRouter.Messages.msgDht, activeNodes_net]
      rfl
    have hr : (net paged asking).router.message DHTRouter.quietEnv
        (.dhtRouter (.messageBroadcast (wrapper Said.requestRealmIds.name))) =
          some ((net paged asking).router,
            [.network (.networkWrapperToNetwork holding (wire .requestRealmIds))]) := by
      rw [DHTRouter.Messages.message, hm]
      rfl
    exact handle_of_router hr
  case sent s => cases s <;> rfl
  case packet s => cases s <;> rfl
  case heard paged s =>
    have hf : ∀ fcs, s.msg ≠ .flos fcs := by
      intro fcs hm
      cases s
      case flos => exact h paged rfl
      all_goals cases hm
    have hm : (storage (s.hearer paged)).message storingEnv
        (.routing (.messageNeighbour s.src (wrapper s.name))) =
          some (storage (s.hearer paged),
            ((storage (s.hearer paged)).replies s.msg).filterMap (·.toNeighbour s.src)) :=
      message_of_neighbour s.unwrapYaml hf rfl
    rw [s.replies, Said.filterMap_toNeighbour] at hm
    have hh : (net (s.paged paged) (other s.src)).handle (other s.src) _ = _ := handle_of_storage hm
    rw [List.map_map] at hh
    exact hh

-- The step with which the first node gets the page.
theorem handle_flos (paged : Bool) :
    (net false asking).handle asking (Stage.heard paged .flos).event.input =
      some (net true asking, []) := by
  have hm : sharing.message storingEnv
      (.routing (.messageNeighbour holding (wrapper Said.flos.name))) = some (full, []) := by
    have hu : (wrapper Said.flos.name).unwrapYaml MessageNeighbour dhtStorageName =
        some (.flos [(page, [])]) := Said.flos.unwrapYaml
    have hs : sharing.storeFloCuckoos storingEnv [(page, [])] = some full :=
      Messages.storeFloCuckoos_cons.mpr ⟨_, storeFloCuckoo_sharing, rfl⟩
    simp only [Messages.message, Messages.msgDhtRouter, hu, Messages.msgNeighbour, hs,
      Option.map_some]
  have hn : (net false asking).storage = sharing := by
    simp only [net, if_true, storage]
  rw [← hn] at hm
  have hh : (net false asking).handle asking _ = _ := handle_of_storage hm
  have ht : net true asking = { net false asking with storage := full } := by
    simp only [net, if_true, storage]
  rw [ht]
  exact hh

def pair : Finset NodeID :=
  {asking, holding}

def Asked (x y : NodeID) : Prop :=
  x = asking ∧ y = holding

def Heard (msg : MessageNeighbour) : Prop :=
  ∃ s : Said, s.msg = msg

theorem readable_heard : Readable Heard where
  message _ h              := by
    obtain ⟨s, rfl⟩ := h
    exact s.lossless
  wrapper _ h w hw         := by
    obtain ⟨s, rfl⟩ := h
    cases s.wrapYaml.symm.trans hw
    exact ⟨s.name, rfl, rfl⟩
  announced fcs h fc hfc   := by
    obtain ⟨s, hs⟩ := h
    cases s <;> cases hs
    cases List.mem_singleton.mp hfc
    exact fun isNew => by cases isNew <;> exact ⟨_, rfl⟩

theorem roomFor_storage (paged : Bool) (env : Env) : (storage paged).RoomFor env [(page, [])] := by
  refine ⟨fun s hl => ?_, fun _ _ => trivial⟩
  rw [(lookup_storage.mp hl).2]
  exact roomy_stored paged

theorem gathers_net (paged : Bool) : Gathers pair Asked sharedId Heard (net paged) where
  contact      := by
    rintro _ _ _ _ ⟨rfl, rfl⟩
    refine ⟨?_, by decide +kernel +revert, by decide +kernel +revert⟩
    exact activeNodes_net paged ▸ List.mem_singleton_self _
  accepted x _ := by
    have hc : (net paged x).storage.config = {} := config_storage _
    rw [hc]
    rfl
  room x _ fcs h env := by
    obtain ⟨s, hs⟩ := h
    cases s <;> cases hs
    exact roomFor_storage ..
  replies x _ msg h ans ha := by
    obtain ⟨s, rfl⟩ := h
    have ha : ans ∈ (storage _).replies s.msg := ha
    rw [s.replies] at ha
    obtain ⟨a, _, rfl⟩ := List.mem_map.mp ha
    exact ⟨a, rfl⟩

theorem Stage.takes (t : Stage) :
    network.Takes (gathering pair Asked sharedId Heard) (net t.paged) (net t.next.paged) t.event := by
  constructor
  case left =>
    cases t
    case broadcast | sent | packet => trivial
    case sync                      => exact fun _ => ⟨rfl, Nat.one_pos, trivial⟩
    case heard paged s             =>
      refine fun _ => ⟨rfl, Nat.one_pos, ?_⟩
      simp only [InternIn.write, s.unwrapYaml]
      cases s
      case flos => exact roomFor_storage ..
      all_goals trivial
  case right =>
    by_cases h : ∀ paged, t ≠ heard paged .flos
    case pos =>
      rw [paged_next h]
      exact ⟨_, handle h, (Function.update_eq_self ..).symm⟩
    case neg =>
      simp only [not_forall, not_not] at h
      obtain ⟨paged, rfl⟩ := h
      have hn : net true = Function.update (net false) asking (net true asking) := by
        funext x
        by_cases hx : x = asking
        case pos => rw [hx, Function.update_self]
        case neg => rw [Function.update_of_ne hx, net, net, if_neg hx, if_neg hx]
      exact ⟨_, handle_flos paged, hn⟩

def run : Cluster.Run NodeID DHTNode Input Output where
  parties n := net (Stage.next^[n] (.sync false)).paged
  events n  := (Stage.next^[n] (.sync false)).event

theorem fair_run : network.Fair (gathering pair Asked sharedId Heard) run :=
  Cluster.fair_of_stages (fun _ => gathers_net _) Stage.takes Stage.handed_on (.sync false)

theorem founded_net (paged : Bool) : Founded pair sharedId (net paged) where
  wf _ _    := wf_storage _
  known _ _ := HashMap.mem_iff_lookup.mpr ⟨_, lookup_storage.mpr ⟨rfl, rfl⟩⟩

-- The first node does not have the page, asks for it, and keeps it.
theorem spreads_pair :
    ¬(run.parties 0 asking).storage.Holds sharedId page.floId page.version ∧
    ∃ m, ∀ k ≥ m, (run.parties k asking).storage.Holds sharedId page.floId page.version := by
  constructor
  case left  =>
    rintro ⟨s, fs, hl, hf, _⟩
    have hs : s = sharedStorage := (lookup_storage.mp hl).2
    have hn : page.floId ∉ sharedStorage.flos := by decide +kernel
    exact hn <| HashMap.mem_iff_lookup.mpr ⟨fs, hs ▸ hf⟩
  case right =>
    refine spreads fair_run readable_heard ⟨.requestRealmIds, rfl⟩ (founded_net _) ?_ (n := 0)
      (Finset.mem_insert_of_mem <| Finset.mem_singleton_self holding) ?_ (.single ?_)
    case refine_1 =>
      rintro _ _ _ _ ⟨rfl, rfl⟩ n
      have hn : Stage.next^[13 * n + 19] (.sync false) = .sync true := by
        rw [Function.iterate_add_apply, Function.iterate_mul]
        exact Function.iterate_fixed rfl n
      exact ⟨13 * n + 19, by omega, storingEnv, (Stage.sync true).event.out, congrArg Stage.event hn⟩
    case refine_2 =>
      have hne : holding ≠ asking := by decide
      have hn : (run.parties 0 holding).storage = full := by
        simp only [run, Function.iterate_zero, id_eq, Stage.paged, net, if_neg hne, storage]
      rw [hn]
      exact ⟨_, _, lookup_full.mpr ⟨rfl, rfl⟩, lookup_pageStorage, UInt32.le_refl _⟩
    case refine_3 =>
      exact ⟨Finset.mem_insert_of_mem <| Finset.mem_singleton_self _, Finset.mem_insert_self ..,
        rfl, rfl⟩

end Pair

end DHTNode
