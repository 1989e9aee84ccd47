import Fledger.Dht.Nodes
import Fledger.DhtRouter.Closest
import Fledger.DhtStorage.Convergence
import Fledger.DhtStorage.Returns
import Fledger.DhtStorage.Sync

namespace DHTNode

open DHTRouter (Apart Closest Complete ModuleMessage arrival left)

-- All nodes of the network have a complete view.
def Views (nodes : Finset NodeID) (parties : NodeID → DHTNode) : Prop :=
  ∀ x ∈ nodes, Complete nodes x (parties x).router

abbrev Setting :=
  Cluster.Setting NodeID DHTNode Input

abbrev Goal :=
  Cluster.Goal NodeID DHTNode Output

-- The views stay complete, and the only thing which is expected of a router is that it does not put
-- nodes on a blacklist.
structure Setting.Routes (b : Setting) (nodes : Finset NodeID) : Prop where
  views : ∀ {parties}, b.parties parties → Views nodes parties
  quiet : ∀ {parties id env input},
    b.input parties id (.router env input) ↔ env.localBlacklists = false

variable [Sha256] [RealmReader] [Yaml (HashMap RealmID RealmStorage)] [Yaml MessageClosest]
  [Yaml MessageNeighbour] [Yaml MessageDest] [Yaml ModuleMessage]

section Step

variable {id : NodeID} {node node' : DHTNode} {out : List Output}

theorem handle_storage {env : Env} {input : InternIn}
    (h : node.handle id (.storage env input) = some (node', out)) :
    ∃ m o, node.storage.message env input = some (m, o) ∧ node'.storage = m ∧
      out = o.map .storage := by
  obtain ⟨⟨m, o⟩, hm, h⟩ := Option.bind_eq_some_iff.mp h
  cases h
  exact ⟨m, o, hm, rfl, rfl⟩

end Step

section Delivers

variable {b : Setting} {l x : NodeID} {P : DHTNode → List Output → Prop}

theorem delivers_of_handle {o : Output}
    (hi : ∀ {parties}, b.parties parties → ∃ input, Carries l o x input ∧ b.input parties x input)
    (h : ∀ {parties input}, b.parties parties → Carries l o x input → b.input parties x input →
      ∃ node out, (parties x).handle x input = some (node, out) ∧ P node out) :
    network.Delivers b l o x P := by
  refine .of_exists (fun {_ _ _ _ _ _ _} h₁ h₂ => ?_) hi h
  cases Option.some.inj <| h₁.symm.trans h₂
  exact ⟨rfl, rfl⟩

-- One lemma for each kind of link.

theorem delivers_toRouter {msg : DHTRouterIn}
    (hi : ∀ {parties}, b.parties parties → ∃ env, b.input parties x (.router env (.dhtRouter msg)))
    (h : ∀ {parties env}, b.parties parties → b.input parties x (.router env (.dhtRouter msg)) →
      ∃ m o, (parties x).router.message env (.dhtRouter msg) = some (m, o) ∧
        P { parties x with router := m } (o.map .router)) :
    network.Delivers b x (.storage (.routing msg)) x P := by
  refine delivers_of_handle (fun hb => ?_) fun hb hc hi => ?_
  case refine_1 =>
    obtain ⟨env, he⟩ := hi hb
    exact ⟨_, .toRouter env, he⟩
  case refine_2 =>
    cases hc
    obtain ⟨m, o, hm, hp⟩ := h hb hi
    exact ⟨_, _, handle_of_router hm, hp⟩

theorem delivers_toNode {w : NetworkWrapper}
    (hi : ∀ {parties}, b.parties parties →
      ∃ env, b.input parties x (.router env (.network (.networkWrapperFromNetwork l w))))
    (h : ∀ {parties env}, b.parties parties →
      b.input parties x (.router env (.network (.networkWrapperFromNetwork l w))) →
      ∃ m o, (parties x).router.message env (.network (.networkWrapperFromNetwork l w)) =
        some (m, o) ∧ P { parties x with router := m } (o.map .router)) :
    network.Delivers b l (.router (.network (.networkWrapperToNetwork x w))) x P := by
  refine delivers_of_handle (fun hb => ?_) fun hb hc hi => ?_
  case refine_1 =>
    obtain ⟨env, he⟩ := hi hb
    exact ⟨_, .toNode env, he⟩
  case refine_2 =>
    cases hc
    obtain ⟨m, o, hm, hp⟩ := h hb hi
    exact ⟨_, _, handle_of_router hm, hp⟩

theorem delivers_toStorage {msg : DHTRouterOut}
    (hi : ∀ {parties}, b.parties parties → ∃ env, b.input parties x (.storage env (.routing msg)))
    (h : ∀ {parties env}, b.parties parties → b.input parties x (.storage env (.routing msg)) →
      ∃ m o, (parties x).storage.message env (.routing msg) = some (m, o) ∧
        P { parties x with storage := m } (o.map .storage)) :
    network.Delivers b x (.router (.dhtRouter msg)) x P := by
  refine delivers_of_handle (fun hb => ?_) fun hb hc hi => ?_
  case refine_1 =>
    obtain ⟨env, he⟩ := hi hb
    exact ⟨_, .toStorage env, he⟩
  case refine_2 =>
    cases hc
    obtain ⟨m, o, hm, hp⟩ := h hb hi
    exact ⟨_, _, handle_of_storage hm, hp⟩

end Delivers

section Routing

variable {nodes : Finset NodeID} {b : Setting} {x z l orig : NodeID} {key : U256}
  {msg w : NetworkWrapper}

-- The message is handed over by the router of one of the closest nodes.
def atClosest (nodes : Finset NodeID) (orig : NodeID) (key : U256) (msg : NetworkWrapper) : Goal where
  output z o := Closest nodes key z ∧ ∃ l, o = .router (.dhtRouter (arrival orig l key msg z))
  state _ _  := False

def atDest (orig dst : NodeID) (msg : NetworkWrapper) : Goal where
  output z o := z = dst ∧ ∃ l, o = .router (.dhtRouter (.messageDest orig l msg))
  state _ _  := False

omit [Sha256] [RealmReader] [Yaml (HashMap RealmID RealmStorage)] [Yaml MessageClosest]
  [Yaml MessageNeighbour] [Yaml MessageDest] [Yaml ModuleMessage] in
theorem Setting.Routes.allowed (hb : b.Routes nodes) (parties : NodeID → DHTNode) (x : NodeID)
    (input : DHTRouter.InternIn) : ∃ env, b.input parties x (.router env input) :=
  ⟨DHTRouter.quietEnv, hb.quiet.mpr rfl⟩

-- A packet on its way between two routers.
theorem inevitable_of_closest (hb : b.Routes nodes) (ha : Apart nodes)
    (hy : Yaml.Lossless (ModuleMessage.closest orig key msg)) (hx : x ∈ nodes)
    (hr : w.unwrapYaml ModuleMessage DHTRouter.dhtRouterName = some (.closest orig key msg)) :
    network.Inevitable b (atClosest nodes orig key msg) l
      (.router (.network (.networkWrapperToNetwork x w))) := by
  refine .of_rank (P := fun n l o => ∃ x ∈ nodes, ∃ w,
    o = .router (.network (.networkWrapperToNetwork x w)) ∧ n = left key l x ∧
    w.unwrapYaml ModuleMessage DHTRouter.dhtRouterName = some (.closest orig key msg)) ?_
    (left key l x) l _ ⟨x, hx, w, rfl, rfl, hr⟩
  rintro n l o ⟨x, hx, w, rfl, rfl, hr⟩
  refine .inr ⟨x, delivers_toNode (fun _ => hb.allowed _ x _) fun hp hi => ?_⟩
  obtain ⟨m, o, hm, hpass⟩ :=
    DHTRouter.passed_of_message (hb.views hp x hx) ha hx (hb.quiet.mp hi) hy hr
  refine ⟨m, o, hm, .inr ?_⟩
  cases hpass
  case arrived closest mem =>
    exact ⟨_, List.mem_map_of_mem mem, .inl <| .reached ⟨closest, l, rfl⟩⟩
  case forwarded y w ne hop chosen read mem =>
    exact ⟨_, List.mem_map_of_mem mem,
      .inr ⟨left key x y, chosen.left_lt ne, y, hop, w, rfl, rfl, read⟩⟩

-- A message for a key which does not start at one of the nodes which are closest to it ends at one of
-- them.
theorem closest_inevitable (hb : b.Routes nodes) (ha : Apart nodes)
    (hy : Yaml.Lossless (ModuleMessage.closest x key msg)) (hx : x ∈ nodes)
    (hfar : ¬Closest nodes key x) :
    network.Inevitable b (atClosest nodes x key msg) x
      (.storage (.routing (.messageClosest key msg))) := by
  refine .handled (R := fun o => ∃ y ∈ nodes, ∃ w,
    o = .router (.network (.networkWrapperToNetwork y w)) ∧
    w.unwrapYaml ModuleMessage DHTRouter.dhtRouterName = some (.closest x key msg))
    (delivers_toRouter (fun _ => hb.allowed _ x _) fun {parties env} hp _ => ?_) ?_
  case refine_2 =>
    rintro o ⟨y, hy', w, rfl, hr⟩
    exact inevitable_of_closest hb ha hy hy' hr
  case refine_1 =>
    have hv := hb.views hp x hx
    have hnil : (parties x).router.closestOrConnected key none ≠ [] :=
      fun hn => hfar <| hv.closest_of_nil hx hn
    obtain ⟨y, hh⟩ : ∃ y, ((parties x).router.closestOrConnected key none).head? = some y :=
      ⟨_, List.head?_eq_some_head hnil⟩
    obtain ⟨w, hw, hr⟩ := DHTRouter.wrapperNetwork_of_lossless hy y
    have hm : (parties x).router.message env (.dhtRouter (.messageClosest key msg)) =
        some ((parties x).router, [.network (.networkWrapperToNetwork y w)]) := by
      simp [DHTRouter.Messages.message, DHTRouter.Messages.msgDht, DHTRouter.Messages.newClosest, hh,
        hv.root, hw]
    exact ⟨_, _, hm, .inr ⟨_, List.mem_singleton_self _, y,
      hv.mem_of_closestOrConnected <| List.mem_of_mem_head? hh, w, rfl, hr⟩⟩

theorem inevitable_of_direct (hb : b.Routes nodes) (ha : Apart nodes)
    (hy : Yaml.Lossless (ModuleMessage.direct orig z msg)) (hx : x ∈ nodes) (hz : z ∈ nodes)
    (hr : w.unwrapYaml ModuleMessage DHTRouter.dhtRouterName = some (.direct orig z msg)) :
    network.Inevitable b (atDest orig z msg) l
      (.router (.network (.networkWrapperToNetwork x w))) := by
  refine .of_rank (P := fun n _ o => ∃ x ∈ nodes, ∃ w,
    o = .router (.network (.networkWrapperToNetwork x w)) ∧ n = DHTRouter.hopsLeft z x ∧
    w.unwrapYaml ModuleMessage DHTRouter.dhtRouterName = some (.direct orig z msg)) ?_
    (DHTRouter.hopsLeft z x) l _ ⟨x, hx, w, rfl, rfl, hr⟩
  rintro n l o ⟨x, hx, w, rfl, rfl, hr⟩
  refine .inr ⟨x, delivers_toNode (fun _ => hb.allowed _ x _) fun {_ env} hp _ => ?_⟩
  obtain ⟨out₁, hd, hh⟩ := DHTRouter.handled_messageDirect env l (hb.views hp x hx) hz hy
  obtain ⟨m, o, hm, hsub⟩ := DHTRouter.exists_message hr <|
    Option.bind_eq_some_iff.mpr ⟨out₁, hd, rfl⟩
  refine ⟨m, o, hm, .inr ?_⟩
  cases hh
  case arrived he _ dests =>
    obtain ⟨l', hm⟩ := DHTRouter.mem_of_dests dests
    exact ⟨_, List.mem_map_of_mem (hsub hm), .inl <| .reached ⟨he, l', rfl⟩⟩
  case forwarded y w hne packets _ read mem closer =>
    have hlt := ha.hopsLeft_lt hx hz hne closer
    exact ⟨_, List.mem_map_of_mem (hsub <| DHTRouter.mem_of_packets packets),
      .inr ⟨_, hlt, y, mem, w, rfl, rfl, read⟩⟩

-- A message for another node of the network gets there.
theorem direct_inevitable (hb : b.Routes nodes) (ha : Apart nodes)
    (hy : Yaml.Lossless (ModuleMessage.direct x z msg)) (hx : x ∈ nodes) (hz : z ∈ nodes)
    (hne : x ≠ z) :
    network.Inevitable b (atDest x z msg) x (.storage (.routing (.messageDirect z msg))) := by
  refine .handled (R := fun o => ∃ y ∈ nodes, ∃ w,
    o = .router (.network (.networkWrapperToNetwork y w)) ∧
    w.unwrapYaml ModuleMessage DHTRouter.dhtRouterName = some (.direct x z msg))
    (delivers_toRouter (fun _ => hb.allowed _ x _) fun hp _ => ?_) ?_
  case refine_2 =>
    rintro o ⟨y, hy', w, rfl, hr⟩
    exact inevitable_of_direct hb ha hy hy' hz hr
  case refine_1 =>
    obtain ⟨out₁, ho, hh⟩ :=
      DHTRouter.handled_msgDht (hb.views hp x hx) hz hne (.inr ⟨rfl, rfl⟩) hy
    refine ⟨_, out₁, Option.bind_eq_some_iff.mpr ⟨out₁, ho, rfl⟩, .inr ?_⟩
    cases hh
    case arrived he _ _ => exact absurd he hne
    case forwarded y w _ packets _ read mem _ =>
      exact ⟨_, List.mem_map_of_mem (DHTRouter.mem_of_packets packets), y, mem, w, rfl, read⟩

end Routing

section Read

variable {nodes : Finset NodeID} {id : GlobalID} {F : FloCuckoo → Prop} {rnd : U256}
  {x z l : NodeID} {fc : FloCuckoo} {w : NetworkWrapper}

-- All nodes which are closest to the flo hold it, and the one which asks can store it: its own storage
-- of the realm is not filled by the flo of the realm alone.
structure Serves (nodes : Finset NodeID) (id : GlobalID) (F : FloCuckoo → Prop) (x : NodeID)
    (parties : NodeID → DHTNode) : Prop where
  views     : Views nodes parties
  wf        : ∀ x ∈ nodes, (parties x).storage.Wf
  held      : ∀ z, Closest nodes id.floId z → ∃ fc, (parties z).storage.readFlo id = some fc ∧ F fc
  uncrowded : ∀ fc, F fc → ∀ s, (parties x).storage.realms.lookup fc.1.realm = some s →
    s.Uncrowded fc.1

-- Those which hold it do answer.
def serving (nodes : Finset NodeID) (id : GlobalID) (F : FloCuckoo → Prop) (x : NodeID) :
    Setting where
  parties := Serves nodes id F x
  input parties z
    | .router env _      => env.localBlacklists = false
    | .storage env input => (Closest nodes id.floId z → env.evilNoForward = false) ∧
      (parties z).storage.Ample env input
    | .restart ..        => True

-- The application gets the flo.
def told (x : NodeID) (id : GlobalID) : Goal where
  output z o := z = x ∧
    ∃ fc : FloCuckoo, o = .storage (.storage (.floValue fc)) ∧ fc.1.globalId = id
  state _ _  := False

-- The messages by which a flo is looked up can be read, and the flo can be announced.
structure Legible (nodes : Finset NodeID) (id : GlobalID) (F : FloCuckoo → Prop) (rnd : U256)
    (x : NodeID) : Prop where
  request   : Yaml.Lossless (MessageClosest.readFlo id.realmId rnd)
  asked     : ∀ w, NetworkWrapper.wrapYaml dhtStorageName (MessageClosest.readFlo id.realmId rnd) =
    some w → Yaml.Lossless (ModuleMessage.closest x id.floId w)
  answer    : ∀ fc, F fc → Yaml.Lossless (MessageDest.floValue fc (some rnd))
  answered  : ∀ fc, F fc → ∀ z ∈ nodes, ∀ w,
    NetworkWrapper.wrapYaml dhtStorageName (MessageDest.floValue fc (some rnd)) = some w →
      Yaml.Lossless (ModuleMessage.direct z x w)
  announced : ∀ fc, F fc → Messages.Announced fc.1

omit [Yaml ModuleMessage] in
theorem routes_serving : (serving nodes id F x).Routes nodes where
  views hp := hp.views
  quiet    := Iff.rfl

omit [RealmReader] [Yaml (HashMap RealmID RealmStorage)] [Yaml MessageClosest]
  [Yaml MessageNeighbour] [Yaml MessageDest] [Yaml ModuleMessage] in
theorem globalId_of_readFlo {m : Messages} (h : m.Wf) (hr : m.readFlo id = some fc) :
    fc.1.globalId = id := by
  obtain ⟨s, hl, hg⟩ := Option.bind_eq_some_iff.mp hr
  obtain ⟨fs, hl', rfl⟩ := Option.map_eq_some_iff.mp hg
  have hs := h.hosts hl
  rw [Flo.globalId, hs.realm hl', hs.reachable.wf.keyed hl']

omit [Yaml ModuleMessage] in
theorem serving_allowed {parties : NodeID → DHTNode} (z : NodeID) (input : InternIn) :
    ∃ env, (serving nodes id F x).input parties z (.storage env input) := by
  obtain ⟨fuel, ha⟩ := (parties z).storage.exists_ample Sync.sharedEnv input
  exact ⟨_, fun _ => rfl, ha⟩

-- The answer has come back.
theorem told_of_answer (hy : Legible nodes id F rnd x) (hx : x ∈ nodes) (hf : F fc)
    (hr : w.unwrapYaml MessageDest dhtStorageName = some (.floValue fc (some rnd)))
    (hid : fc.1.globalId = id) :
    network.Inevitable (serving nodes id F x) (told x id) x
      (.router (.dhtRouter (.messageDest z l w))) := by
  refine .handled (R := (told x id).output x)
    (delivers_toStorage (fun _ => serving_allowed x _) fun {parties env} hp hi => ?_)
    fun _ ho => .reached ho
  have hs : (parties x).storage.Settles fc.1 := fun s hl =>
    ((hp.wf x hx).hosts hl).reachable.wf.upserts_of_uncrowded <| hp.uncrowded fc hf s hl
  obtain ⟨fuel, m, hm⟩ := hs.exists_storeFloCuckoo (hy.announced fc hf) env
  have hout {env : Env} {m : Messages} (hm : (parties x).storage.storeFloCuckoo env fc = some m) :
      (parties x).storage.message env (.routing (.messageDest z l w)) =
        some (m, [.storage (.floValue fc)]) := by
    simp only [Messages.message, Messages.msgDhtRouter, hr, Messages.msgDest, hm]
    rfl
  obtain ⟨m', out, hm'⟩ := hi.2.exists_message ⟨fuel, _, hout hm⟩
  have ho : out = [.storage (.floValue fc)] := by
    have hm := hm'
    simp only [Messages.message, Messages.msgDhtRouter, hr, Messages.msgDest] at hm
    obtain ⟨_, _, hm⟩ := Option.bind_eq_some_iff.mp hm
    cases hm
    rfl
  subst ho
  exact ⟨m', _, hm', .inr ⟨_, List.mem_singleton_self _, rfl, fc, rfl, hid⟩⟩

-- The request has come to one of the closest nodes.
theorem told_of_request (ha : Apart nodes) (hy : Legible nodes id F rnd x) (hx : x ∈ nodes)
    (hz : Closest nodes id.floId z) (hne : z ≠ x)
    (hr : w.unwrapYaml MessageClosest dhtStorageName = some (.readFlo id.realmId rnd)) :
    network.Inevitable (serving nodes id F x) (told x id) z
      (.router (.dhtRouter (.messageClosest x l id.floId w))) := by
  refine .handled (R := fun o => ∃ fc w, F fc ∧ fc.1.globalId = id ∧
    NetworkWrapper.wrapYaml dhtStorageName (MessageDest.floValue fc (some rnd)) = some w ∧
    o = .storage (.routing (.messageDirect x w)))
    (delivers_toStorage (fun _ => serving_allowed z _) fun {parties env} hp hi => ?_) ?_
  case refine_1 =>
    obtain ⟨fc, hread, hf⟩ := hp.held z hz
    obtain ⟨w', hw, _⟩ := NetworkWrapper.wrapYaml_of_lossless (hy.answer fc hf) dhtStorageName
    have hm : (parties z).storage.message env (.routing (.messageClosest x l id.floId w)) =
        some ((parties z).storage, [.routing (.messageDirect x w')]) := by
      simp only [Messages.message, Messages.msgDhtRouter, hr, Messages.msgRouting, hread, hi.1 hz,
        MessageDest.toInternOut, hw]
      rfl
    exact ⟨_, _, hm, .inr ⟨_, List.mem_singleton_self _, fc, w', hf,
      globalId_of_readFlo (hp.wf z hz.mem) hread, hw, rfl⟩⟩
  case refine_2 =>
    rintro o ⟨fc, w', hf, hid, hw, rfl⟩
    refine (direct_inevitable routes_serving ha (hy.answered fc hf z hz.mem w' hw) hz.mem hx
      hne).trans (fun _ _ h => h.elim) ?_
    rintro _ _ ⟨rfl, l', rfl⟩
    exact told_of_answer hy hx hf (NetworkWrapper.unwrapYaml_of_wrapYaml (hy.answer fc hf) hw) hid

-- If the nodes which are closest to a flo hold it and answer, then whoever asks for it is told about
-- it, whatever the other nodes do.
theorem readFlo_inevitable (ha : Apart nodes) (hx : x ∈ nodes) (hid : id.floId ∉ nodes)
    {parties : NodeID → DHTNode} (hp : Serves nodes id F x parties) {env : Env}
    (hy : Legible nodes id F env.rnd x) :
    ∃ node out, (parties x).handle x (.storage env (.storage (.readFlo id))) = some (node, out) ∧
      ∃ o ∈ out, network.Inevitable (serving nodes id F x) (told x id) x o := by
  cases hread : (parties x).storage.readFlo id
  case some fc =>
    have hm : (parties x).storage.message env (.storage (.readFlo id)) =
        some ((parties x).storage, [.storage (.floValue fc)]) := by
      simp only [Messages.message, Messages.msgDhtStorage, hread]
    refine ⟨_, _, handle_of_storage hm, _, List.mem_singleton_self _, .reached ⟨rfl, fc, rfl, ?_⟩⟩
    exact globalId_of_readFlo (hp.wf x hx) hread
  case none    =>
    obtain ⟨w, hw, hr⟩ := NetworkWrapper.wrapYaml_of_lossless hy.request dhtStorageName
    have hm : (parties x).storage.message env (.storage (.readFlo id)) =
        some ((parties x).storage, [.routing (.messageClosest id.floId w)]) := by
      simp only [Messages.message, Messages.msgDhtStorage, hread, MessageClosest.toInternOut, hw]
      rfl
    have hfar : ¬Closest nodes id.floId x := fun hc => by
      obtain ⟨fc, hr, _⟩ := hp.held x hc
      cases hr.symm.trans hread
    refine ⟨_, _, handle_of_storage hm, _, List.mem_singleton_self _, ?_⟩
    refine (closest_inevitable routes_serving ha (hy.asked w hw) hx hfar).trans
      (fun _ _ h => h.elim) ?_
    rintro z _ ⟨hz, l, rfl⟩
    have hne : id.floId ≠ z := fun he => hid (he ▸ hz.mem)
    rw [arrival, if_neg hne]
    exact told_of_request ha hy hx hz (fun he => hfar (he ▸ hz)) hr

-- In a run in which every message is delivered at some time, the application gets the flo.
theorem readFlo_eventually {run : Cluster.Run NodeID DHTNode Input Output}
    (hf : network.Fair (serving nodes id F x) run) (ha : Apart nodes) (hx : x ∈ nodes)
    (hid : id.floId ∉ nodes) {n : Nat} {env : Env} (hy : Legible nodes id F env.rnd x)
    {out : List Output} (he : run.events n = ⟨x, .storage env (.storage (.readFlo id)), out⟩) :
    ∃ m ≥ n, (run.events m).party = x ∧ ∃ fc : FloCuckoo,
      .storage (.storage (.floValue fc)) ∈ (run.events m).out ∧ fc.1.globalId = id := by
  obtain ⟨_, _, hs, _⟩ := he ▸ hf.steps n
  obtain ⟨_, _, hs', o, hm, ho⟩ := readFlo_inevitable ha hx hid (hf.parties n) hy
  cases Option.some.inj <| hs'.symm.trans hs
  rw [← show (run.events n).out = out by rw [he]] at hm
  obtain ⟨m, hn, ⟨_, hg⟩ | ⟨_, hm, hx, fc, rfl, hid⟩⟩ := ho.eventually hf (by rw [he]) hm
  · exact hg.elim
  · exact ⟨m, hn, hx, fc, hm, hid⟩

end Read

section Store

variable {nodes : Finset NodeID} {flo : Flo} {x z l : NodeID} {w : NetworkWrapper}

-- All nodes which are closest to the flo know its realm, and have room for it.
structure Receives (nodes : Finset NodeID) (flo : Flo) (parties : NodeID → DHTNode) : Prop where
  views : Views nodes parties
  known : ∀ z, Closest nodes flo.floId z → flo.realm ∈ (parties z).storage.realms
  roomy : ∀ z, Closest nodes flo.floId z →
    ∀ s, (parties z).storage.realms.lookup flo.realm = some s → s.Roomy flo

def receiving (nodes : Finset NodeID) (flo : Flo) : Setting where
  parties := Receives nodes flo
  input parties z
    | .router env _      => env.localBlacklists = false
    | .storage env input => (parties z).storage.Ample env input
    | .restart ..        => True

-- One of the closest nodes has the flo, or a later version of it.
def kept (nodes : Finset NodeID) (flo : Flo) : Goal where
  output _ _   := False
  state z node := Closest nodes flo.floId z ∧
    node.storage.Holds flo.realm flo.floId flo.version

-- The node does not have the flo yet, and it does not refuse it; its storage of the realm is not
-- filled by the flo of the realm alone.
def News (m : Messages) (flo : Flo) : Prop :=
  ∃ s, m.realms.lookup flo.realm = some s ∧ ¬s.oversized flo ∧ s.Uncrowded flo ∧
    ∀ fs, s.flos.lookup flo.floId = some fs → fs.version < flo.version

-- The messages by which a flo is stored can be read.
structure Storable (flo : Flo) (x : NodeID) : Prop where
  request   : Yaml.Lossless (MessageClosest.storeFlo flo)
  asked     : ∀ w, NetworkWrapper.wrapYaml dhtStorageName (MessageClosest.storeFlo flo) = some w →
    Yaml.Lossless (ModuleMessage.closest x flo.floId w)
  announced : Messages.Announced flo

omit [Yaml (HashMap RealmID RealmStorage)] [Yaml MessageClosest] [Yaml MessageNeighbour]
  [Yaml MessageDest] [Yaml ModuleMessage] in
theorem News.isNew {m m' : Messages} {env : Env} {isNew : Bool} (h : News m flo)
    (ht : m.Takes env flo m' isNew) : isNew = true := by
  obtain ⟨s, hl, ho, _, hv⟩ := h
  cases ht
  case created hn _ _ | ignored hn _ => cases hn.symm.trans hl
  case known hl' hu =>
    cases hl.symm.trans hl'
    rw [(RealmStorage.upserts_iff ho).mp hu |>.left, Bool.or_eq_true, decide_eq_true_eq]
    by_cases hm : flo.floId ∈ s.flos
    case neg => exact .inr hm
    case pos =>
      obtain ⟨fs, hf⟩ := HashMap.mem_iff_lookup.mp hm
      exact .inl <| (RealmStorage.accepts_adoptCuckoo hf).mpr (hv fs hf)

omit [RealmReader] [Yaml (HashMap RealmID RealmStorage)] [Yaml MessageClosest]
  [Yaml MessageNeighbour] [Yaml MessageDest] [Yaml ModuleMessage] in
theorem News.settles {m : Messages} (h : News m flo) (hw : m.Wf) : m.Settles flo := by
  obtain ⟨s, hl, _, hu, _⟩ := h
  intro s' hl'
  cases hl.symm.trans hl'
  exact (hw.hosts hl).reachable.wf.upserts_of_uncrowded hu

omit [Yaml MessageNeighbour] [Yaml MessageDest] [Yaml ModuleMessage] in
theorem holds_of_storeFlo {m m' : Messages} {env : Env} {out : List InternOut}
    (hs : m.storeFlo env flo = some (m', out)) (hk : flo.realm ∈ m.realms)
    (hr : ∀ s, m.realms.lookup flo.realm = some s → s.Roomy flo) :
    m'.Holds flo.realm flo.floId flo.version := by
  obtain ⟨_, _, ht, hrealms, _⟩ := Messages.takes_of_storeFlo hs
  obtain ⟨s, fs, hl, hf, hv⟩ := ht.holds hk hr
  exact ⟨s, fs, hrealms ▸ hl, hf, hv⟩

theorem kept_of_request (hy : Storable flo x) (hz : Closest nodes flo.floId z)
    (hr : w.unwrapYaml MessageClosest dhtStorageName = some (.storeFlo flo)) :
    network.Inevitable (receiving nodes flo) (kept nodes flo) z
      (.router (.dhtRouter (.messageClosest x l flo.floId w))) := by
  refine .handled (R := fun _ => False)
    (delivers_toStorage (fun {parties} _ => ?_) fun {parties env} hp hi => ?_) fun _ h => h.elim
  case refine_1 =>
    obtain ⟨fuel, ha⟩ := (parties z).storage.exists_ample Sync.sharedEnv
      (.routing (.messageClosest x l flo.floId w))
    exact ⟨_, ha⟩
  case refine_2 =>
    have hm (env : Env) : (parties z).storage.message env
        (.routing (.messageClosest x l flo.floId w)) = (parties z).storage.storeFlo env flo := by
      simp only [Messages.message, Messages.msgDhtRouter, hr, Messages.msgRouting]
    have hs : (parties z).storage.Settles flo := fun s hl _ _ =>
      ⟨_, RealmStorage.upserts_taken (hp.roomy z hz s hl).size ((hp.roomy z hz s hl).taken ..)⟩
    obtain ⟨fuel, r, hs⟩ := hs.exists_storeFlo hy.announced env
    obtain ⟨m, o, hmo⟩ := Messages.Ample.exists_message hi ⟨fuel, r, (hm _).trans hs⟩
    refine ⟨m, o, hmo, .inl ⟨hz, ?_⟩⟩
    exact holds_of_storeFlo ((hm _).symm.trans hmo) (hp.known z hz) (hp.roomy z hz)

-- A flo which is new to the node which stores it gets to one of the nodes which are closest to it, and
-- if there is room for it there, then it is kept there.
theorem storeFlo_inevitable (ha : Apart nodes) (hx : x ∈ nodes) (hid : flo.floId ∉ nodes)
    {parties : NodeID → DHTNode} (hp : Receives nodes flo parties)
    (hw : (parties x).storage.Wf) (hn : News (parties x).storage flo) (hy : Storable flo x)
    {env : Env} (he : (parties x).storage.Ample env (.storage (.storeFlo flo))) :
    ∃ node out, (parties x).handle x (.storage env (.storage (.storeFlo flo))) =
      some (node, out) ∧
      ((Closest nodes flo.floId x ∧ node.storage.Holds flo.realm flo.floId flo.version) ∨
        ∃ o ∈ out, network.Inevitable (receiving nodes flo) (kept nodes flo) x o) := by
  obtain ⟨fuel, r, hs⟩ := (hn.settles hw).exists_storeFlo hy.announced env
  obtain ⟨m, o, hm⟩ := he.exists_message ⟨fuel, r, hs⟩
  refine ⟨_, _, handle_of_storage hm, ?_⟩
  change (parties x).storage.storeFlo env flo = some (m, o) at hm
  by_cases hc : Closest nodes flo.floId x
  case pos => exact .inl ⟨hc, holds_of_storeFlo hm (hp.known x hc) (hp.roomy x hc)⟩
  case neg =>
    obtain ⟨_, isNew, ht, _, hann⟩ := Messages.storeFlo_eq_some.mp hm
    cases hn.isNew (Messages.takes_of_takeFlo ht)
    obtain ⟨w, hw, hu⟩ := NetworkWrapper.wrapYaml_of_lossless hy.request dhtStorageName
    simp only [Messages.announcements, MessageClosest.toInternOut, hw, Option.map_some, if_true,
      Option.bind_eq_bind, Option.bind_some, Option.bind_eq_some_iff, Option.pure_def,
      Option.some.injEq] at hann
    obtain ⟨_, _, rfl⟩ := hann
    refine .inr ⟨_, List.mem_map_of_mem <| List.mem_append_left _ <| List.mem_singleton_self _, ?_⟩
    have hroutes : (receiving nodes flo).Routes nodes := ⟨fun hp => hp.views, Iff.rfl⟩
    refine (closest_inevitable hroutes ha (hy.asked w hw) hx hc).trans (fun _ _ h => h.elim) ?_
    rintro z _ ⟨hz, l, rfl⟩
    have hne : flo.floId ≠ z := fun he => hid (he ▸ hz.mem)
    rw [arrival, if_neg hne]
    exact kept_of_request hy hz hu

theorem storeFlo_eventually {run : Cluster.Run NodeID DHTNode Input Output}
    (hf : network.Fair (receiving nodes flo) run) (ha : Apart nodes) (hx : x ∈ nodes)
    (hid : flo.floId ∉ nodes) {n : Nat} (hw : (run.parties n x).storage.Wf)
    (hn : News (run.parties n x).storage flo) (hy : Storable flo x) {env : Env} {out : List Output}
    (he : run.events n = ⟨x, .storage env (.storage (.storeFlo flo)), out⟩) :
    ∃ m > n, ∃ z, Closest nodes flo.floId z ∧
      (run.parties m z).storage.Holds flo.realm flo.floId flo.version := by
  obtain ⟨hi, node', hs, hrun⟩ := he ▸ hf.steps n
  obtain ⟨_, _, hs', hcases⟩ := storeFlo_inevitable ha hx hid (hf.parties n) hw hn hy hi
  cases Option.some.inj <| hs'.symm.trans hs
  rcases hcases with ⟨hc, hh⟩ | ⟨o, hm, hi⟩
  case inl => exact ⟨n + 1, Nat.lt_succ_self n, x, hc, by rwa [hrun, Function.update_self]⟩
  case inr =>
    rw [← show (run.events n).out = out by rw [he]] at hm
    obtain ⟨m, hn, ⟨z, hg⟩ | ⟨_, _, hg⟩⟩ := hi.eventually hf (by rw [he]) hm
    · exact ⟨m + 1, Nat.lt_succ_of_le hn, z, hg⟩
    · exact hg.elim

end Store

end DHTNode

namespace DHTNode

open DHTRouter (three threeNet threeNet_complete)
open Sync (sharedFlo sharedId sharedStorage sharedEnv sharing joining)

attribute [local instance] Sha256.rolling Sync.sharedReader Sync.sharedRealms

section

attribute [local instance] Sync.sharedYaml Sync.sharedClosest Sync.sharedDest

theorem wf_sharing : sharing.Wf :=
  Sync.sharing_reachable.wf

theorem wf_joining : joining.Wf :=
  Sync.joining_reachable.wf

end

-- A flo of the realm which is not stored yet.
def page : Flo :=
  .sample sharedId 0 5

-- The node which asks, and the one which has the flo.
def asking : NodeID :=
  .ofPrefix [0x80]

def holding : NodeID :=
  .zero

def sharedGlobalId : GlobalID :=
  ⟨sharedId, sharedId⟩

def onWire (name : String) : NetworkWrapper :=
  ⟨dhtStorageName, name⟩

noncomputable abbrev lookupClosest : Yaml MessageClosest :=
  .table [
    (.readFlo sharedId .zero, "ReadFlo"),
    (.storeFlo page, "StoreFlo"),
    (.storeFlo sharedFlo, "StoreRealm")
  ]

noncomputable abbrev lookupDest : Yaml MessageDest :=
  .table [(.floValue (sharedFlo, []) (some .zero), "FloValue")]

noncomputable abbrev lookupNeighbour : Yaml MessageNeighbour :=
  .table []

noncomputable abbrev lookupRouter : Yaml DHTRouter.ModuleMessage :=
  .table [
    (.closest asking sharedId (onWire "ReadFlo"), "Closest"),
    (.closest holding page.floId (onWire "StoreFlo"), "ClosestStore"),
    (.direct .zero asking (onWire "FloValue"), "Direct0"),
    (.direct (.ofPrefix [0x80]) asking (onWire "FloValue"), "Direct1"),
    (.direct (.ofPrefix [0xc0]) asking (onWire "FloValue"), "Direct2")
  ]

attribute [local instance] lookupClosest lookupDest lookupNeighbour lookupRouter

noncomputable def lookupNet (id : NodeID) : DHTNode where
  router  := threeNet id
  storage := if id = holding then sharing else joining

theorem apart_three : DHTRouter.Apart three := by
  unfold DHTRouter.Apart
  decide +kernel

theorem closest_three {z : NodeID} (h : DHTRouter.Closest three sharedId z) : z = holding := by
  have hd : ∀ z ∈ three, (∀ y ∈ three, KNode.getDepth y sharedId ≤ KNode.getDepth z sharedId) →
      z = holding := by
    decide +kernel
  exact hd z h.mem h.le

theorem views_lookupNet : Views three lookupNet :=
  threeNet_complete

theorem readFlo_sharing : sharing.readFlo sharedGlobalId = some (sharedFlo, []) := by
  have hl := Sync.sharing_lookup.mpr ⟨rfl, rfl⟩
  simp [Messages.readFlo, sharedGlobalId, hl, RealmStorage.getFloCuckoo, Sync.sharedStorage_lookup,
    FloStorage.ofFlo]

theorem storage_asking : (lookupNet asking).storage = joining := by
  rw [lookupNet, if_neg (by decide)]

theorem serves_lookupNet :
    Serves three sharedGlobalId (· = (sharedFlo, [])) asking lookupNet where
  views              := views_lookupNet
  wf x _             := by
    unfold lookupNet
    dsimp only
    split
    case isTrue  => exact wf_sharing
    case isFalse => exact wf_joining
  held z hz          := by
    rw [closest_three hz]
    exact ⟨_, readFlo_sharing, rfl⟩
  uncrowded _ _ s hl := by
    rw [storage_asking, Sync.joining_realms] at hl
    cases hl

theorem wrapYaml_readFlo : NetworkWrapper.wrapYaml dhtStorageName
    (MessageClosest.readFlo sharedId .zero) = some (onWire "ReadFlo") := by
  simp [NetworkWrapper.wrapYaml, Yaml.toString, onWire]

theorem wrapYaml_floValue : NetworkWrapper.wrapYaml dhtStorageName
    (MessageDest.floValue (sharedFlo, []) (some .zero)) = some (onWire "FloValue") := by
  simp [NetworkWrapper.wrapYaml, Yaml.toString, onWire]

theorem legible_lookupNet :
    Legible three sharedGlobalId (· = (sharedFlo, [])) .zero asking where
  request              := Yaml.table_lossless (by decide) List.mem_cons_self
  asked w hw           := by
    cases wrapYaml_readFlo.symm.trans hw
    exact Yaml.table_lossless (by decide) List.mem_cons_self
  answer fc hf         := hf ▸ Yaml.table_lossless (by decide) List.mem_cons_self
  answered fc hf z hz w hw := by
    subst hf
    cases wrapYaml_floValue.symm.trans hw
    simp only [three, Finset.mem_insert, Finset.mem_singleton] at hz
    rcases hz with rfl | rfl | rfl
    · exact Yaml.table_lossless (by decide) (.tail _ <| .tail _ <| .head _)
    · exact Yaml.table_lossless (by decide) (.tail _ <| .tail _ <| .tail _ <| .head _)
    · exact Yaml.table_lossless (by decide) (.tail _ <| .tail _ <| .tail _ <| .tail _ <| .head _)
  announced fc hf      := by
    subst hf
    exact Messages.announced_of_lossless
      (Yaml.table_lossless (by decide) (.tail _ <| .tail _ <| .head _)) rfl

-- The flo is looked up by a node which does not have it.
theorem readFlo_inevitable_lookupNet : ∃ node out,
    (lookupNet asking).handle asking (.storage sharedEnv (.storage (.readFlo sharedGlobalId))) =
      some (node, out) ∧
    ∃ o ∈ out, network.Inevitable (serving three sharedGlobalId (· = (sharedFlo, [])) asking)
      (told asking sharedGlobalId) asking o :=
  readFlo_inevitable apart_three (by decide) (by decide +kernel) serves_lookupNet
    legible_lookupNet

theorem closest_inevitable_lookupNet :
    network.Inevitable (serving three sharedGlobalId (· = (sharedFlo, [])) asking)
      (atClosest three asking sharedId (onWire "ReadFlo")) asking
      (.storage (.routing (.messageClosest sharedId (onWire "ReadFlo")))) :=
  closest_inevitable routes_serving apart_three
    (Yaml.table_lossless (by decide) List.mem_cons_self) (by decide)
    fun hc => absurd (closest_three hc) (by decide)

-- All nodes have the realm.
noncomputable def realmNet (id : NodeID) : DHTNode where
  router  := threeNet id
  storage := sharing

theorem lookup_sharing : sharing.realms.lookup page.realm = some sharedStorage :=
  Sync.sharing_lookup.mpr ⟨rfl, rfl⟩

theorem wf_sharedStorage : sharedStorage.Wf :=
  (RealmStorage.Reachable.new ..).wf

theorem receives_realmNet : Receives three page realmNet where
  views       := threeNet_complete
  known _ _   := HashMap.mem_iff_lookup.mpr ⟨_, lookup_sharing⟩
  roomy _ _ s hl := by
    cases lookup_sharing.symm.trans hl
    exact wf_sharedStorage.roomy (by decide +kernel) (by decide +kernel)

theorem news_realmNet (id : NodeID) : News (realmNet id).storage page := by
  have hroomy : sharedStorage.Roomy page :=
    wf_sharedStorage.roomy (by decide +kernel) (by decide +kernel)
  refine ⟨_, lookup_sharing, by decide +kernel, hroomy.uncrowded wf_sharedStorage, fun fs hf => ?_⟩
  have hn : page.floId ∉ sharedStorage.flos := by decide +kernel
  exact absurd (HashMap.mem_iff_lookup.mpr ⟨fs, hf⟩) hn

def storingEnv : Env :=
  { sharedEnv with fuel := 1 }

theorem storable_page : Storable page holding where
  request     := Yaml.table_lossless (by decide) (.tail _ <| .head _)
  asked w hw  := by
    have hw' : NetworkWrapper.wrapYaml dhtStorageName (MessageClosest.storeFlo page) =
        some (onWire "StoreFlo") := by
      simp [NetworkWrapper.wrapYaml, Yaml.toString, onWire]
    cases hw'.symm.trans hw
    exact Yaml.table_lossless (by decide) (.tail _ <| .head _)
  announced   :=
    Messages.announced_of_lossless (Yaml.table_lossless (by decide) (.tail _ <| .head _)) rfl

-- The first node stores the page, and the second one is closest to it.
theorem storeFlo_inevitable_realmNet : ∃ node out,
    (realmNet holding).handle holding (.storage storingEnv (.storage (.storeFlo page))) =
      some (node, out) ∧
    ((DHTRouter.Closest three page.floId holding ∧
        node.storage.Holds page.realm page.floId page.version) ∨
      ∃ o ∈ out, network.Inevitable (receiving three page) (kept three page) holding o) := by
  have ht : (sharing.takeFlo storingEnv page).isSome := by decide +kernel
  obtain ⟨⟨_, isNew⟩, ht⟩ := Option.isSome_iff_exists.mp ht
  obtain ⟨_, ho⟩ := storable_page.announced isNew
  have hs : sharing.message storingEnv (.storage (.storeFlo page)) = some _ :=
    Messages.storeFlo_eq_some.mpr ⟨_, _, ht, rfl, ho⟩
  exact storeFlo_inevitable apart_three (by decide) (by decide +kernel) receives_realmNet wf_sharing
    (news_realmNet holding) storable_page (Messages.ample_of_message hs)

end DHTNode
