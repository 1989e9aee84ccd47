import Fledger.Network.Connections
import Fledger.DhtRouter.Messages
import Mathlib.Logic.Function.Basic

inductive RouterInternal
  | connected (id : NodeID)
  | disconnected (id : NodeID)
  | available (infos : List NodeInfo)
  | messageFromNode (id : NodeID) (msg : String)
  | systemConfig (conf : FledgerConfig)

structure RouterNetwork where
  nodesAvailable : List NodeInfo := []
  nodesConnected : List NodeID   := []

namespace RouterNetwork

-- What the router makes of the messages of `Network`.
def translate : NetworkOut → Option RouterInternal
  | .messageFromNode id msg => some (.messageFromNode id msg)
  | .nodeListFromWs infos   => some (.available infos)
  | .connected id           => some (.connected id)
  | .disconnected id        => some (.disconnected id)
  | .systemConfig conf      => some (.systemConfig conf)
  | .connectionState _      => none
  | .webSocket _            => none
  | .webRtc _               => none

-- An info without an id panics.
def availableConnected (r : RouterNetwork) (id : NodeID) : Option (Bool × Bool) := do
  let info ← r.nodesAvailable.findM? fun info => return (← info.getId) == id
  return (info.isSome, id ∈ r.nodesConnected)

variable [Yaml NetworkWrapper]

-- The state, whether it has changed, and the messages.
def message (r : RouterNetwork) : RouterInternal → Option (RouterNetwork × Bool × List RouterOut)
  | .connected id           => do
    if (← r.availableConnected id).2 then return (r, false, [])
    return ({ r with nodesConnected := r.nodesConnected ++ [id] }, true, [])
  | .disconnected id        => do
    if !(← r.availableConnected id).2 then return (r, false, [])
    return ({ r with nodesConnected := r.nodesConnected.filter (· ≠ id) }, true, [])
  | .available infos        => some ({ r with nodesAvailable := infos }, true, [])
  | .messageFromNode id msg =>
    some (r, false, ((Yaml.fromStr msg).map (.networkWrapperFromNetwork id)).toList)
  | .systemConfig conf      => some (r, false, [.systemConfig conf])

def messages (r : RouterNetwork) (msgs : List RouterInternal) :
    Option (RouterNetwork × List RouterOut) := do
  let (r, ret, out) ← msgs.foldlM (fun (r, ret, out) msg => do
    let (r, ret', out') ← r.message msg
    return (r, ret || ret', out ++ out')) (r, false, [])
  if !ret then return (r, out)
  let connected ← r.nodesAvailable.filterM fun info => return r.nodesConnected.contains (← info.getId)
  return (r, out ++ [.nodeInfoAvailable r.nodesAvailable, .nodeIdsConnected r.nodesConnected,
    .nodeInfosConnected connected])

end RouterNetwork

-- The connections to all peers, each of which is there before it is used, and what handles their
-- messages. The task of a connection ends when it panics.
structure TrackedNetwork where
  connections : NodeID → Option NodeConnection := fun _ => some {}
  messages    : Network.Messages
  router      : RouterNetwork                  := {}

namespace TrackedNetwork

-- What a direction of the connection to a peer reports.
structure Event where
  env : NodeConnection.Env
  id  : NodeID
  dir : Direction
  msg : WebRTCOutput

variable [Target] [PacketSerde] [NetworkJson] [Yaml NetworkWrapper]

def event (net : TrackedNetwork) (e : Event) : Option TrackedNetwork :=
  match (net.connections e.id).map fun nc => nc.handle e.env e.dir e.msg with
  | none                  => some net
  | some none             =>
    some { net with connections := Function.update net.connections e.id none }
  | some (some (nc, out)) => do
    let out := out.flatMap (net.messages.msgNode e.id)
    let (router, _) ← net.router.messages (out.filterMap RouterNetwork.translate)
    return { net with connections := Function.update net.connections e.id (some nc), router }

-- The last event comes first.
def track (config : NodeConfig) : List Event → Option TrackedNetwork
  | []     => some { messages := { nodeConfig := config } }
  | e :: h => do (← track config h).event e

-- Whether a direction is up after a message, given whether it was before.
def upAfter (before : Prop) : WebRTCOutput → Prop
  | .connected    => True
  | .disconnected => False
  | .error _      => False
  | .text _       => before
  | .setup _      => before
  | .state _      => before

-- The direction has reported `Connected`, and neither `Disconnected` nor `Error` since.
def Up (id : NodeID) (dir : Direction) : List Event → Prop
  | []     => False
  | e :: h => if e.id = id ∧ e.dir = dir then upAfter (Up id dir h) e.msg else Up id dir h

def Accurate (config : NodeConfig) (h : List Event) : Prop :=
  ∃ net, track config h = some net ∧ ∀ id, id ∈ net.router.nodesConnected ↔ ∃ dir, Up id dir h

-- The connection to the peer has panicked on a text.
def Broken (id : NodeID) (h : List Event) : Prop :=
  ∃ e ∈ h, e.id = id ∧ ∃ text, e.msg = .text text ∧ PacketCollector.Overflows text

def Loses (msg : WebRTCOutput) : Prop :=
  msg = .disconnected ∨ ∃ text, msg = .error text

-- A direction is lost while the other direction to the same peer is up.
def Halves (h : List Event) (e : Event) : Prop :=
  ¬ Broken e.id h ∧ Loses e.msg ∧ ∃ dir ≠ e.dir, Up e.id dir h

-- The first direction gets up or the last one is lost when nobody listens any more.
def Unheard (h : List Event) (e : Event) : Prop :=
  Broken e.id h ∧
    ((e.msg = .connected ∧ ∀ dir, ¬ Up e.id dir h) ∨
      (Loses e.msg ∧ Up e.id e.dir h ∧ ∀ dir ≠ e.dir, ¬ Up e.id dir h))

end TrackedNetwork

namespace RouterNetwork

variable [Yaml NetworkWrapper] {r : RouterNetwork}

theorem messages_connected (id : NodeID) (hr : r.nodesAvailable = []) : ∃ out,
    r.messages [.connected id] = some ({ r with nodesConnected :=
      if id ∈ r.nodesConnected then r.nodesConnected else r.nodesConnected ++ [id] }, out) := by
  obtain ⟨_, ids⟩ := r
  cases hr
  by_cases hi : id ∈ ids <;>
    simp [messages, message, availableConnected, List.findM?, List.filterM, List.filterAuxM, hi]

theorem messages_disconnected (id : NodeID) (hr : r.nodesAvailable = []) : ∃ out,
    r.messages [.disconnected id] =
      some ({ r with nodesConnected := r.nodesConnected.filter (· ≠ id) }, out) := by
  obtain ⟨_, ids⟩ := r
  cases hr
  by_cases hi : id ∈ ids
  case pos =>
    simp [messages, message, availableConnected, List.findM?, List.filterM, List.filterAuxM, hi]
  case neg =>
    have hf : ids.filter (· ≠ id) = ids :=
      List.filter_eq_self.mpr fun i him => decide_eq_true fun he => hi (he ▸ him)
    rw [hf]
    simp [messages, message, availableConnected, List.findM?, hi]

theorem messages_text (r : RouterNetwork) (id : NodeID) (text : Option String) : ∃ out,
    r.messages (text.map (.messageFromNode id)).toList = some (r, out) := by
  cases text <;> simp [messages, message]

end RouterNetwork

namespace TrackedNetwork

section

variable [NetworkJson]

-- What comes out of a connection when it sends what waits is of no interest to the router.
theorem translate_sendQueue (m : Network.Messages) (nc : NodeConnection) (id : NodeID) :
    (nc.sendQueue.2.flatMap (m.msgNode id)).filterMap RouterNetwork.translate = [] := by
  rw [NodeConnection.sendQueue_eq]
  split
  case h_1 => rfl
  case h_2 dir _ =>
    refine List.filterMap_eq_nil_iff.mpr fun out ho => ?_
    obtain ⟨_, hm, ho⟩ := List.mem_flatMap.mp ho
    obtain ⟨_, _, rfl⟩ := List.mem_map.mp hm
    cases dir <;> cases ho

-- What the router is told of an event.
def told (id : NodeID) (text : Option String) : WebRTCOutput → List RouterInternal
  | .connected    => [.connected id]
  | .disconnected => [.disconnected id]
  | .error _      => [.disconnected id]
  | .text _       => (text.map (.messageFromNode id)).toList
  | .setup _      => []
  | .state _      => []

theorem translate_msgConn [PacketSerde] (m : Network.Messages) (env : NodeConnection.Env)
    (nc : NodeConnection) (id : NodeID) (dir : Direction) (msg : WebRTCOutput) : ∃ text,
    ((nc.msgConn env dir msg).2.flatMap (m.msgNode id)).filterMap RouterNetwork.translate =
      told id text msg := by
  cases msg
  case connected =>
    refine ⟨none, ?_⟩
    exact congrArg _ <| translate_sendQueue m _ id
  case text s =>
    refine ⟨(nc.packetCollector.takePacketStr env.rehash s).2, ?_⟩
    simp only [NodeConnection.msgConn, told]
    cases (nc.packetCollector.takePacketStr env.rehash s).2 <;> rfl
  case disconnected => cases dir <;> exact ⟨none, rfl⟩
  case error        => cases dir <;> exact ⟨none, rfl⟩
  case setup        => cases dir <;> exact ⟨none, rfl⟩
  case state        => exact ⟨none, rfl⟩

end

variable [Target] [PacketSerde] [NetworkJson] [Yaml NetworkWrapper] {config : NodeConfig}
  {net : TrackedNetwork} {e : Event} {h log : List Event} {id : NodeID}

-- As far as the router can see, a peer is up when the last of its directions to report is.
def Listed (id : NodeID) : List Event → Prop
  | []     => False
  | e :: h =>
    if e.id = id then
      Broken id h ∧ Listed id h ∨ ¬ Broken id h ∧ upAfter (Listed id h) e.msg
    else Listed id h

omit [Target] [PacketSerde] [NetworkJson] in
theorem messages_told {r : RouterNetwork} (hr : r.nodesAvailable = []) (id : NodeID)
    (text : Option String) (msg : WebRTCOutput) :
    ∃ r' out, r.messages (told id text msg) = some (r', out) ∧ r'.nodesAvailable = [] ∧
      ∀ i, i ∈ r'.nodesConnected ↔
        if id = i then upAfter (i ∈ r.nodesConnected) msg else i ∈ r.nodesConnected := by
  have lost : ∃ r' out, r.messages [.disconnected id] = some (r', out) ∧ r'.nodesAvailable = [] ∧
      ∀ i, i ∈ r'.nodesConnected ↔ if id = i then False else i ∈ r.nodesConnected := by
    obtain ⟨out, hm⟩ := RouterNetwork.messages_disconnected id hr
    refine ⟨_, out, hm, hr, fun i => ?_⟩
    by_cases hi : id = i
    case pos => simp [hi]
    case neg => simp [hi, Ne.symm hi]
  cases msg
  case connected =>
    obtain ⟨out, hm⟩ := RouterNetwork.messages_connected id hr
    refine ⟨_, out, hm, hr, fun i => ?_⟩
    by_cases hi : id = i
    case pos =>
      subst hi
      simp only [if_true, upAfter, iff_true]
      split <;> simp [*]
    case neg =>
      rw [if_neg hi]
      split <;> simp [Ne.symm hi]
  case disconnected => exact lost
  case error        => exact lost
  case text =>
    obtain ⟨out, hm⟩ := r.messages_text id text
    exact ⟨r, out, hm, hr, fun i => (ite_self _).to_iff.symm⟩
  case setup => exact ⟨r, [], rfl, hr, fun i => (ite_self _).to_iff.symm⟩
  case state => exact ⟨r, [], rfl, hr, fun i => (ite_self _).to_iff.symm⟩

omit [NetworkJson] [Yaml NetworkWrapper] in
theorem broken_cons : Broken id (e :: h) ↔
    (e.id = id ∧ ∃ text, e.msg = .text text ∧ PacketCollector.Overflows text) ∨ Broken id h := by
  constructor
  case mp =>
    rintro ⟨e', hm, he⟩
    cases List.mem_cons.mp hm
    case inl hm => exact .inl <| hm ▸ he
    case inr hm => exact .inr ⟨e', hm, he⟩
  case mpr =>
    rintro (he | ⟨e', hm, he⟩)
    case inl => exact ⟨e, List.mem_cons_self, he⟩
    case inr => exact ⟨e', List.mem_cons_of_mem _ hm, he⟩

omit [NetworkJson] [Yaml NetworkWrapper] in
-- A message is handled as long as it does not break the connection.
theorem handle_cases (nc : NodeConnection) (e : Event) :
    (nc.handle e.env e.dir e.msg = none ∧
      ∃ text, e.msg = .text text ∧ PacketCollector.Overflows text) ∨
    (nc.handle e.env e.dir e.msg = some (nc.msgConn e.env e.dir e.msg) ∧
      ¬ ∃ text, e.msg = .text text ∧ PacketCollector.Overflows text) := by
  obtain ⟨env, id, dir, msg⟩ := e
  cases msg
  case text text =>
    by_cases ho : PacketCollector.Overflows text
    case pos =>
      refine .inl ⟨?_, text, rfl, ho⟩
      simp only [NodeConnection.handle, PacketCollector.newPacketStr_of_overflows env.rehash ho]
      rfl
    case neg =>
      refine .inr ⟨?_, ?_⟩
      · simp only [NodeConnection.handle, PacketCollector.newPacketStr_of_not_overflows env.rehash ho]
        rfl
      · rintro ⟨_, he, ho'⟩
        cases he
        exact ho ho'
  all_goals
    refine .inr ⟨rfl, ?_⟩
    rintro ⟨_, he, _⟩
    cases he

-- The router is told of what a connection handles, and of nothing else.
theorem event_spec (hr : net.router.nodesAvailable = [])
    (hb : ∀ i, net.connections i = none ↔ Broken i h) :
    ∃ net', net.event e = some net' ∧ net'.router.nodesAvailable = [] ∧
      (∀ i, net'.connections i = none ↔ Broken i (e :: h)) ∧
      ∀ i, i ∈ net'.router.nodesConnected ↔
        if e.id = i then Broken i h ∧ i ∈ net.router.nodesConnected ∨
          ¬ Broken i h ∧ upAfter (i ∈ net.router.nodesConnected) e.msg
        else i ∈ net.router.nodesConnected := by
  cases hn : net.connections e.id
  case none    =>
    have hbe := (hb e.id).mp hn
    refine ⟨net, by simp only [event, hn, Option.map_none], hr, fun i => ?_, fun i => ?_⟩
    · rw [hb, broken_cons]
      refine ⟨.inr, fun hc => hc.elim (fun hc => hc.1 ▸ hbe) fun hc => hc⟩
    · split
      case isFalse   => rfl
      case isTrue he =>
        subst he
        simp [hbe]
  case some nc =>
    have hbe : ¬ Broken e.id h := fun hbe => by
      rw [(hb e.id).mpr hbe] at hn
      cases hn
    have hu (i : NodeID) (c : Option NodeConnection) (hc : c = none ↔
        ∃ text, e.msg = .text text ∧ PacketCollector.Overflows text) :
        Function.update net.connections e.id c i = none ↔ Broken i (e :: h) := by
      rw [broken_cons]
      by_cases hi : i = e.id
      case pos =>
        subst hi
        rw [Function.update_self, hc]
        exact ⟨fun ho => .inl ⟨rfl, ho⟩, fun ho => ho.elim (·.2) fun ho => (hbe ho).elim⟩
      case neg =>
        rw [Function.update_of_ne hi, hb]
        exact ⟨.inr, fun ho => ho.elim (fun ho => (hi ho.1.symm).elim) fun ho => ho⟩
    rcases handle_cases nc e with ⟨hh, ho⟩ | ⟨hh, ho⟩
    case inl =>
      refine ⟨{ net with connections := Function.update net.connections e.id none },
        by simp only [event, hn, Option.map_some, hh], hr,
        fun i => hu i none <| iff_of_true rfl ho, fun i => ?_⟩
      obtain ⟨text, ht, _⟩ := ho
      split
      case isFalse   => rfl
      case isTrue he =>
        subst he
        simp [hbe, ht, upAfter]
    case inr =>
      obtain ⟨text, ht⟩ := translate_msgConn net.messages e.env nc e.id e.dir e.msg
      obtain ⟨router, out, hm, ha, hc⟩ := messages_told hr e.id text e.msg
      let nc' := (nc.msgConn e.env e.dir e.msg).1
      refine ⟨{ net with connections := Function.update net.connections e.id (some nc'), router },
        ?_, ha, fun i => hu i (some nc') <| iff_of_false (by simp) ho, fun i => ?_⟩
      · simp only [event, hn, Option.map_some, hh, ht, hm]
        rfl
      · rw [hc]
        split
        case isFalse   => rfl
        case isTrue he =>
          subst he
          simp [hbe]

theorem track_spec (config : NodeConfig) (h : List Event) :
    ∃ net, track config h = some net ∧ net.router.nodesAvailable = [] ∧
      (∀ id, net.connections id = none ↔ Broken id h) ∧
      ∀ id, id ∈ net.router.nodesConnected ↔ Listed id h := by
  induction h
  case nil         => exact ⟨_, rfl, rfl, fun id => by simp [Broken], fun id => by simp [Listed]⟩
  case cons e h hi =>
    obtain ⟨net, ht, ha, hb, hl⟩ := hi
    obtain ⟨net', he, ha', hb', hc⟩ := event_spec (e := e) ha hb
    refine ⟨net', by simp [track, ht, he], ha', hb', fun id => ?_⟩
    rw [hc id, hl id, Listed]

omit [Target] [PacketSerde] [NetworkJson] [Yaml NetworkWrapper] in
theorem exists_up : (∃ dir, Up e.id dir h) ↔ Up e.id e.dir h ∨ ∃ dir ≠ e.dir, Up e.id dir h := by
  constructor
  case mp =>
    rintro ⟨dir, hu⟩
    by_cases hd : dir = e.dir
    case pos => exact .inl <| hd ▸ hu
    case neg => exact .inr ⟨dir, hd, hu⟩
  case mpr =>
    rintro (hu | ⟨dir, _, hu⟩)
    case inl => exact ⟨e.dir, hu⟩
    case inr => exact ⟨dir, hu⟩

omit [Target] [PacketSerde] [NetworkJson] [Yaml NetworkWrapper] in
-- A report says something about its own direction only.
theorem exists_up_cons : (∃ dir, Up e.id dir (e :: h)) ↔
    upAfter (Up e.id e.dir h) e.msg ∨ ∃ dir ≠ e.dir, Up e.id dir h := by
  have hne {dir : Direction} (hd : dir ≠ e.dir) : Up e.id dir (e :: h) ↔ Up e.id dir h := by
    rw [Up, if_neg fun he => hd he.2.symm]
  rw [exists_up, Up, if_pos ⟨rfl, rfl⟩]
  exact or_congr_right <| exists_congr fun dir => and_congr_right hne

omit [NetworkJson] [Yaml NetworkWrapper] in
-- An event is unheard if and only if it changes whether the peer is up.
theorem unheard_iff (hb : Broken e.id h) :
    Unheard h e ↔ ¬ ((∃ dir, Up e.id dir (e :: h)) ↔ ∃ dir, Up e.id dir h) := by
  have hn : (∀ dir, ¬ Up e.id dir h) ↔ ¬ (Up e.id e.dir h ∨ ∃ dir ≠ e.dir, Up e.id dir h) := by
    rw [← exists_up, not_exists]
  have hq : (∀ dir ≠ e.dir, ¬ Up e.id dir h) ↔ ¬ ∃ dir ≠ e.dir, Up e.id dir h := by
    simp only [not_exists, not_and]
  rw [exists_up_cons, exists_up, Unheard, hn, hq]
  generalize Up e.id e.dir h = p, (∃ dir ≠ e.dir, Up e.id dir h) = q
  cases hm : e.msg <;> by_cases hp : p <;> by_cases hq : q <;> simp [hb, hp, hq, upAfter, Loses]

omit [NetworkJson] [Yaml NetworkWrapper] in
-- Without such events, a peer is listed while one of its directions is up.
theorem listed_iff_up (hn : ∀ e h, e :: h <:+ log → ¬ Halves h e ∧ ¬ Unheard h e) :
    Listed id log ↔ ∃ dir, Up id dir log := by
  induction log
  case nil => simp [Listed, Up]
  case cons e h hi =>
    have hi := hi fun e' h' hs => hn e' h' <| hs.trans <| List.suffix_cons _ _
    obtain ⟨hh, hu⟩ := hn e h List.suffix_rfl
    by_cases he : e.id = id
    case neg => simpa only [Listed, Up, he, false_and, if_false] using hi
    case pos =>
      subst he
      rw [Listed, if_pos rfl]
      by_cases hb : Broken e.id h
      case pos =>
        simp only [hb, true_and, not_true_eq_false, false_and, or_false]
        exact hi.trans <| (not_not.mp <| mt (unheard_iff hb).mpr hu).symm
      case neg =>
        rw [exists_up] at hi
        rw [exists_up_cons, hi]
        simp only [Halves, hb, not_false_eq_true, true_and] at hh
        revert hh
        generalize Up e.id e.dir h = p, (∃ dir ≠ e.dir, Up e.id dir h) = q
        cases e.msg <;> by_cases hp : p <;> by_cases hq : q <;> simp [hb, hp, hq, upAfter, Loses]

omit [NetworkJson] [Yaml NetworkWrapper] in
-- A halved peer is not listed, although its other direction is up.
theorem not_listed_of_halves (hh : Halves h e) :
    ¬ Listed e.id (e :: h) ∧ ∃ dir, Up e.id dir (e :: h) := by
  obtain ⟨hb, hl, hd⟩ := hh
  constructor
  case right => exact exists_up_cons.mpr <| .inr hd
  case left =>
    rw [Listed, if_pos rfl]
    rintro (hc | ⟨_, hu⟩)
    case inl => exact hb hc.1
    case inr =>
      rcases hl with hl | ⟨_, hl⟩ <;> rw [hl] at hu <;> exact hu

theorem accurate_iff (config : NodeConfig) (log : List Event) :
    (∀ h, h <:+ log → Accurate config h) ↔
      ∀ e h, e :: h <:+ log → ¬ Halves h e ∧ ¬ Unheard h e := by
  constructor
  case mp =>
    intro ha
    have hup (h : List Event) (hs : h <:+ log) (id : NodeID) : Listed id h ↔ ∃ dir, Up id dir h := by
      obtain ⟨net, ht, hu⟩ := ha _ hs
      obtain ⟨net', ht', _, _, hl⟩ := track_spec config h
      cases ht.symm.trans ht'
      exact (hl id).symm.trans <| hu id
    intro e h hs
    constructor
    case left =>
      intro hh
      have ⟨hn, hd⟩ := not_listed_of_halves hh
      exact hn <| (hup _ hs e.id).mpr hd
    case right =>
      intro hu
      refine (unheard_iff hu.1).mp hu ?_
      rw [← hup _ hs, ← hup h <| (List.suffix_cons e h).trans hs, Listed, if_pos rfl]
      simp [hu.1]
  case mpr =>
    intro hn h hs
    obtain ⟨net, ht, _, _, hl⟩ := track_spec config h
    refine ⟨net, ht, fun id => (hl id).trans <| listed_iff_up fun e h' hs' => ?_⟩
    exact hn e h' (hs'.trans hs)

end TrackedNetwork

namespace TrackedNetwork

open LinkedNetwork (remote)

abbrev silentYaml : Yaml NetworkWrapper where
  toString _ := none
  fromStr _  := none

attribute [local instance] Target.native64 NodeConnection.plainSerde LinkedNetwork.silentJson
  silentYaml

-- Both directions get connected, then one of them is lost.
def halvedLog : List Event :=
  [ { env := NodeConnection.plainEnv, id := remote, dir := .incoming, msg := .disconnected },
    { env := NodeConnection.plainEnv, id := remote, dir := .outgoing, msg := .connected },
    { env := NodeConnection.plainEnv, id := remote, dir := .incoming, msg := .connected } ]

theorem not_accurate : ¬ Accurate LinkedNetwork.ownConfig halvedLog := by
  rintro ⟨net, ht, hu⟩
  have hd : ∃ dir, Up remote dir halvedLog := ⟨.outgoing, by simp [halvedLog, Up, upAfter]⟩
  have hm := (hu remote).mpr hd
  have hn : (track LinkedNetwork.ownConfig halvedLog).map (·.router.nodesConnected) = some [] := by
    decide +kernel
  rw [ht] at hn
  have hc : net.router.nodesConnected = [] := Option.some.inj hn
  rw [hc] at hm
  exact List.not_mem_nil hm

end TrackedNetwork
