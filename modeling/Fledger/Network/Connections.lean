import Fledger.Network.Broker

-- `Network`, with the connections to which it is linked.
structure LinkedNetwork where
  messages : Network.Messages
  webRtc   : WebRTCConn := {}

namespace LinkedNetwork

structure Env where
  network : Network.Env
  webRtc  : WebRTCConn.Env

inductive Input
  | call (msg : NetworkIn)
  | conn (id : NodeID) (dir : Direction) (msg : WebRTCOutput)

-- What an input leads to: all messages which `Network` emits, and those which `WebRTCConn` sends.
structure Step where
  net  : LinkedNetwork
  out  : List NetworkOut
  sent : List (NodeID × NCInput)

variable [PacketSerde] [NetworkJson]

-- The messages for `WebRTCConn` are handled, and what the connections answer to them.
def deliver (env : Env) (net : LinkedNetwork) : List NetworkOut → Step
  | []                  => { net, out := [], sent := [] }
  | .webRtc msg :: outs =>
    let r := net.webRtc.message env.webRtc msg
    let back := r.out.flatMap fun
      | .message id msg => net.messages.msgNode id msg
    let s := deliver env { net with webRtc := r.conn } outs
    { s with out := back ++ s.out, sent := r.sent ++ s.sent }
  | _ :: outs           => deliver env net outs

-- A message of a direction needs a connection from which it comes.
def step (env : Env) (net : LinkedNetwork) : Input → Option Step
  | .call msg        => do
    let (messages, out) ← net.messages.message env.network msg
    let s := deliver env { net with messages } out
    return { s with out := out ++ s.out }
  | .conn id dir msg => do
    let nc ← net.webRtc.connections.lookup id
    let (nc, out) := nc.message env.webRtc.nc (.of msg dir)
    return {
      net  := { net with webRtc := { connections := net.webRtc.connections.insert id nc } }
      out  := out.flatMap (net.messages.msgNode id)
      sent := []
    }

-- A step of a run, with what it emits.
structure Event where
  input : Input
  out   : List NetworkOut

-- The last event comes first. The messages of WebRTC only come from the connections.
inductive Runs (config : NodeConfig) : List Event → LinkedNetwork → Prop
  | start : Runs config [] { messages := { nodeConfig := config } }
  | step {h : List Event} {net : LinkedNetwork} {s : Step} (env : Env) (input : Input) :
    Runs config h net → (∀ msg, input ≠ .call (.webRtc msg)) → net.step env input = some s →
    Runs config (⟨input, s.out⟩ :: h) s.net

-- The input starts a connection to a node, or belongs to one from there.
def Attempts (config : NodeConfig) (id : NodeID) : Input → Prop
  | .call (.connect dst)              => dst = id
  | .call (.messageToNode dst _)      => dst = id
  | .call (.webSocket (.message msg)) =>
    ∃ pi, NetworkJson.fromStr msg = some (some (.peerSetup pi)) ∧ pi.getRemote config.id = some id
  | _                                 => False

-- `NetworkOut::Disconnected` was emitted, and no connection was attempted since.
def Released (config : NodeConfig) (id : NodeID) : List Event → Prop
  | []     => False
  | e :: h => .disconnected id ∈ e.out ∨ ¬ Attempts config id e.input ∧ Released config id h

end LinkedNetwork

namespace WebRTCConn

variable [PacketSerde] {env : Env} {c : WebRTCConn} {id dst : NodeID} {msg : NCInput}

theorem mem_trySend : id ∈ (c.trySend env dst msg).conn.connections ↔ id ∈ c.connections := by
  unfold trySend
  split
  case h_1 => rfl
  case h_2 nc hl =>
    have hd : dst ∈ c.connections := HashMap.mem_iff_lookup.mpr ⟨nc, hl⟩
    rw [AList.mem_insert]
    exact ⟨fun h => h.elim (· ▸ hd) fun h => h, .inr⟩

theorem mem_of_out_trySend {out : NCOutput} (h : .message id out ∈ (c.trySend env dst msg).out) :
    id ∈ (c.trySend env dst msg).conn.connections := by
  rw [mem_trySend]
  unfold trySend at h
  split at h
  case h_1 => cases h
  case h_2 nc hl =>
    obtain ⟨_, _, he⟩ := List.mem_map.mp h
    cases he
    exact HashMap.mem_iff_lookup.mpr ⟨nc, hl⟩

theorem sent_trySend : (c.trySend env dst msg).sent =
    if dst ∈ c.connections then [(dst, msg)] else [] := by
  unfold trySend
  split
  case h_1 hl => exact (if_neg <| HashMap.not_mem_iff_lookup.mpr hl).symm
  case h_2 hl => exact (if_pos <| HashMap.mem_iff_lookup.mpr ⟨_, hl⟩).symm

variable {dir : Direction} {input : WebRTCConnInput}

-- A connection stays.
theorem mem_message (h : id ∈ c.connections) : id ∈ (c.message env input).conn.connections := by
  cases input
  case message    => exact mem_trySend.mpr h
  case disconnect => exact mem_trySend.mpr h
  case connect dst dir =>
    simp only [message, ensureConnection]
    split
    case isTrue => exact h
    case isFalse =>
      split
      case isFalse => exact h
      case isTrue =>
        have hi : id ∈ c.connections.insert dst {} := AList.mem_insert _ |>.mpr <| .inr h
        split
        case isTrue  => exact mem_trySend.mpr hi
        case isFalse => exact hi

-- Only connections answer.
theorem mem_of_out {out : NCOutput} (h : .message id out ∈ (c.message env input).out) :
    id ∈ (c.message env input).conn.connections := by
  cases input
  case message    => exact mem_of_out_trySend h
  case disconnect => exact mem_of_out_trySend h
  case connect dst dir =>
    simp only [message, ensureConnection] at h ⊢
    split at h
    case isTrue => cases h
    case isFalse hd =>
      split at h
      case isFalse => cases h
      case isTrue hs =>
        rw [if_neg hd, if_pos hs]
        split at h
        case isFalse    => cases h
        case isTrue hdir =>
          rw [if_pos hdir]
          exact mem_of_out_trySend h

-- The setup is only sent to a new connection.
theorem sent_connect : (c.message env (.connect id .outgoing)).sent =
    if env.spawned ∧ id ∉ c.connections then [(id, .setup .outgoing .init)] else [] := by
  simp only [message, ensureConnection]
  by_cases hc : id ∈ c.connections
  case pos => simp [hc]
  case neg =>
    cases hs : env.spawned
    case false => simp [hc]
    case true  => simp [hc, sent_trySend]

end WebRTCConn

namespace Network.Messages

variable [NetworkJson] {m m' : Messages} {env : Env} {id dst : NodeID} {dir : Direction}
  {out : List NetworkOut} {msg : NetworkIn}

theorem eq_of_disconnected_msgNode {nc : NCOutput} (h : .disconnected id ∈ m.msgNode dst nc) :
    id = dst := by
  cases nc <;> simp [msgNode, toWs] at h
  case disconnected => exact h

-- Of all messages of the signalling server, only a setup of a peer attempts a connection.
theorem msgWs_cases {ws : WSClientOut} (h : m.msgWs env ws = some (m', out)) :
    (m' = m ∧ ∀ id, .disconnected id ∉ out) ∨
    ∃ dst rest, LinkedNetwork.Attempts m.nodeConfig dst (.call (.webSocket ws)) ∧
      m' = (m.assureConnection dst .incoming).1 ∧
      out = (m.assureConnection dst .incoming).2 ++ rest ∧ ∀ id, .disconnected id ∉ rest := by
  cases ws
  case disconnect => cases h; exact .inl ⟨rfl, by simp⟩
  case connected  => cases h; exact .inl ⟨rfl, by simp⟩
  case error      => cases h; exact .inl ⟨rfl, by simp⟩
  case message text =>
    simp only [msgWs] at h
    cases hf : NetworkJson.fromStr text
    case none => simp [hf] at h
    case some msg =>
      rw [hf] at h
      rcases msg with _ | ⟨version, challenge⟩ | infos | pi | conf
      case none              => cases h; exact .inl ⟨rfl, by simp⟩
      case some.listIdsReply => cases h; exact .inl ⟨rfl, by simp⟩
      case some.systemConfig => cases h; exact .inl ⟨rfl, by simp⟩
      case some.challenge =>
        simp only [Option.bind_eq_bind, Option.bind_some] at h
        split at h
        case isTrue => cases h
        case isFalse =>
          obtain ⟨signature, _, he⟩ := Option.bind_eq_some_iff.mp h
          cases he
          exact .inl ⟨rfl, by simp [toWs]⟩
      case some.peerSetup =>
        simp only [Option.bind_eq_bind, Option.bind_some] at h
        split at h
        case h_1 => cases h; exact .inl ⟨rfl, by simp⟩
        case h_2 remote hr =>
          cases h
          exact .inr ⟨remote, _, ⟨pi, hf, hr⟩, rfl, rfl, by simp⟩

-- A message either leaves the list of connections, or starts or ends one.
theorem message_cases (h : m.message env msg = some (m', out)) :
    (m'.connections = m.connections ∧ m'.nodeConfig = m.nodeConfig ∧
      ((∀ nc, msg ≠ .webRtc nc) → ∀ id, .disconnected id ∉ out)) ∨
    (∃ dst dir rest, LinkedNetwork.Attempts m.nodeConfig dst (.call msg) ∧
      m' = (m.assureConnection dst dir).1 ∧ out = (m.assureConnection dst dir).2 ++ rest ∧
      ∀ id, .disconnected id ∉ rest) ∨
    ∃ dst, msg = .disconnect dst ∧ (m', out) = m.disconnect dst := by
  cases msg
  case messageToNode dst text =>
    cases h
    exact .inr <| .inl ⟨dst, .outgoing, _, rfl, rfl, rfl, by simp⟩
  case connect dst =>
    have he : (m', out) = m.assureConnection dst .outgoing := (Option.some.inj h).symm
    refine .inr <| .inl ⟨dst, .outgoing, [], rfl, congrArg Prod.fst he, ?_, by simp⟩
    rw [List.append_nil]
    exact congrArg Prod.snd he
  case disconnect dst =>
    exact .inr <| .inr ⟨dst, rfl, (Option.some.inj h).symm⟩
  case webRtc nc =>
    cases h
    exact .inl ⟨rfl, rfl, fun hn => absurd rfl (hn nc)⟩
  case statsToWs           => cases h; exact .inl ⟨rfl, rfl, by simp [toWs]⟩
  case wsUpdateListRequest => cases h; exact .inl ⟨rfl, rfl, by simp [toWs]⟩
  case tick =>
    left
    simp only [message, msgCall, Option.some.injEq] at h
    split at h <;> cases h <;> exact ⟨rfl, rfl, by simp [toWs]⟩
  case webSocket ws =>
    rcases msgWs_cases h with ⟨rfl, hn⟩ | ⟨dst, rest, ha, hm, ho, hn⟩
    case inl => exact .inl ⟨rfl, rfl, fun _ => hn⟩
    case inr => exact .inr <| .inl ⟨dst, .incoming, rest, ha, hm, ho, hn⟩

theorem config_message (h : m.message env msg = some (m', out)) : m'.nodeConfig = m.nodeConfig := by
  rcases message_cases h with ⟨_, hc, _⟩ | ⟨dst, dir, _, _, rfl, _⟩ | ⟨dst, _, hd⟩
  case inl => exact hc
  case inr.inl =>
    unfold assureConnection
    split <;> rfl
  case inr.inr =>
    rw [show m' = (m.disconnect dst).1 from congrArg Prod.fst hd]
    unfold disconnect
    split <;> rfl

-- Only an attempt makes `Network` know of a connection.
theorem mem_of_mem_message (h : m.message env msg = some (m', out)) (hm : id ∈ m'.connections)
    (ha : ¬ LinkedNetwork.Attempts m.nodeConfig id (.call msg)) : id ∈ m.connections := by
  rcases message_cases h with ⟨hc, _⟩ | ⟨dst, dir, _, hd, rfl, _⟩ | ⟨dst, _, hd⟩
  case inl => exact hc ▸ hm
  case inr.inl =>
    unfold assureConnection at hm
    split at hm
    case isTrue  => exact hm
    case isFalse =>
      rcases List.mem_append.mp hm with hm | hm
      case inl => exact hm
      case inr =>
        cases List.mem_singleton.mp hm
        exact absurd hd ha
  case inr.inr =>
    rw [show m' = (m.disconnect dst).1 from congrArg Prod.fst hd] at hm
    unfold disconnect at hm
    split at hm
    case isTrue  => exact hm
    case isFalse => exact (List.mem_filter.mp hm).left

-- A node from which the user disconnects becomes unknown.
omit [NetworkJson] in
theorem not_mem_disconnect (h : .disconnected id ∈ (m.disconnect dst).2) :
    id ∉ (m.disconnect dst).1.connections := by
  unfold disconnect at h ⊢
  split at h
  case isTrue hm =>
    rw [if_pos hm]
    cases List.mem_singleton.mp h
    exact hm
  case isFalse hm =>
    rw [if_neg hm]
    have hi : id = dst := by simpa using h
    simp [hi]

theorem not_mem_message (h : m.message env msg = some (m', out)) (hw : ∀ nc, msg ≠ .webRtc nc)
    (ho : .disconnected id ∈ out) : id ∉ m'.connections := by
  rcases message_cases h with ⟨_, _, hd⟩ | ⟨dst, dir, rest, _, _, rfl, hd⟩ | ⟨dst, _, hd⟩
  case inl => exact absurd ho (hd hw id)
  case inr.inl =>
    rcases List.mem_append.mp ho with ho | ho
    case inr => exact absurd ho (hd id)
    case inl =>
      unfold assureConnection at ho
      split at ho <;> simp at ho
  case inr.inr =>
    rw [show m' = (m.disconnect dst).1 from congrArg Prod.fst hd]
    rw [show out = (m.disconnect dst).2 from congrArg Prod.snd hd] at ho
    exact not_mem_disconnect ho

end Network.Messages

namespace LinkedNetwork

variable [PacketSerde] [NetworkJson]

variable {config : NodeConfig} {env : Env} {net : LinkedNetwork} {h : List Event} {id : NodeID}

variable {outs : List NetworkOut} {input : Input} {s : Step}

theorem messages_deliver : (deliver env net outs).net.messages = net.messages := by
  induction outs generalizing net
  case nil => rfl
  case cons out outs hi => cases out <;> exact hi

theorem mem_deliver (h : id ∈ net.webRtc.connections) :
    id ∈ (deliver env net outs).net.webRtc.connections := by
  induction outs generalizing net
  case nil => exact h
  case cons out outs hi =>
    cases out
    case webRtc msg => exact hi <| WebRTCConn.mem_message h
    all_goals exact hi h

-- What the connections answer to does not say that a node without a connection has disconnected.
theorem mem_of_disconnected (h : .disconnected id ∈ (deliver env net outs).out) :
    id ∈ (deliver env net outs).net.webRtc.connections := by
  induction outs generalizing net
  case nil => cases h
  case cons out outs hi =>
    cases out
    case webRtc msg =>
      rcases List.mem_append.mp h with h | h
      case inl =>
        obtain ⟨⟨dst, nc⟩, hm, hd⟩ := List.mem_flatMap.mp h
        cases Network.Messages.eq_of_disconnected_msgNode hd
        change id ∈ (deliver env { net with webRtc := _ } outs).net.webRtc.connections
        exact mem_deliver <| WebRTCConn.mem_of_out hm
      case inr => exact hi h
    all_goals exact hi h

-- The connections of `WebRTCConn` stay.
theorem mem_step (hs : net.step env input = some s) (h : id ∈ net.webRtc.connections) :
    id ∈ s.net.webRtc.connections := by
  cases input
  case call msg =>
    obtain ⟨⟨messages, out⟩, hm, he⟩ := Option.bind_eq_some_iff.mp hs
    cases he
    exact mem_deliver h
  case conn dst dir msg =>
    obtain ⟨nc, hl, he⟩ := Option.bind_eq_some_iff.mp hs
    cases he
    exact AList.mem_insert _ |>.mpr <| .inr h

theorem config_step (hs : net.step env input = some s) :
    s.net.messages.nodeConfig = net.messages.nodeConfig := by
  cases input
  case conn =>
    obtain ⟨nc, hl, he⟩ := Option.bind_eq_some_iff.mp hs
    cases he
    rfl
  case call msg =>
    obtain ⟨⟨messages, out⟩, hm, he⟩ := Option.bind_eq_some_iff.mp hs
    cases he
    change (deliver env _ out).net.messages.nodeConfig = _
    rw [messages_deliver]
    exact Network.Messages.config_message hm

theorem config_runs (hr : Runs config h net) : net.messages.nodeConfig = config := by
  induction hr
  case start          => rfl
  case step hs hi     => exact (config_step hs).trans hi

theorem mem_of_mem_step (hs : net.step env input = some s) (hm : id ∈ s.net.messages.connections)
    (ha : ¬ Attempts net.messages.nodeConfig id input) : id ∈ net.messages.connections := by
  cases input
  case conn =>
    obtain ⟨nc, hl, he⟩ := Option.bind_eq_some_iff.mp hs
    cases he
    exact hm
  case call msg =>
    obtain ⟨⟨messages, out⟩, hc, he⟩ := Option.bind_eq_some_iff.mp hs
    cases he
    change id ∈ (deliver env _ out).net.messages.connections at hm
    rw [messages_deliver] at hm
    exact Network.Messages.mem_of_mem_message hc hm ha

-- A node which disconnects is unknown to `Network`, or `WebRTCConn` has a connection to it.
theorem not_mem_of_disconnected (hs : net.step env input = some s)
    (hw : ∀ msg, input ≠ .call (.webRtc msg)) (ho : .disconnected id ∈ s.out)
    (hn : id ∉ s.net.webRtc.connections) : id ∉ s.net.messages.connections := by
  cases input
  case conn dst dir msg =>
    obtain ⟨nc, hl, he⟩ := Option.bind_eq_some_iff.mp hs
    cases he
    obtain ⟨_, _, hd⟩ := List.mem_flatMap.mp ho
    cases Network.Messages.eq_of_disconnected_msgNode hd
    exact absurd (AList.mem_insert _ |>.mpr <| .inl rfl) hn
  case call msg =>
    obtain ⟨⟨messages, out⟩, hc, he⟩ := Option.bind_eq_some_iff.mp hs
    cases he
    change id ∉ (deliver env _ out).net.messages.connections
    rw [messages_deliver]
    rcases List.mem_append.mp ho with ho | ho
    case inl => exact Network.Messages.not_mem_message hc (fun nc hm => hw nc (congrArg _ hm)) ho
    case inr => exact absurd (mem_of_disconnected ho) hn

theorem not_mem_of_released (hr : Runs config h net) (hd : Released config id h)
    (hn : id ∉ net.webRtc.connections) : id ∉ net.messages.connections := by
  induction hr
  case start => exact hd.elim
  case step net s env input hr hw hs hi =>
    rcases hd with ho | ⟨ha, hd⟩
    case inl => exact not_mem_of_disconnected hs hw ho hn
    case inr =>
      refine fun hm => hi hd (mt (mem_step hs) hn) <| mem_of_mem_step hs hm ?_
      rwa [config_runs hr]

theorem sent_deliver_append (xs ys : List NetworkOut) :
    (deliver env net (xs ++ ys)).sent =
      (deliver env net xs).sent ++ (deliver env (deliver env net xs).net ys).sent := by
  induction xs generalizing net
  case nil => rfl
  case cons x xs hi =>
    cases x
    case webRtc msg => exact (congrArg _ hi).trans (List.append_assoc _ _ _).symm
    all_goals exact hi

-- `Network` and `WebRTCConn` both have to have forgotten the node.
theorem mem_sent_assure {m : Network.Messages} :
    (id, .setup .outgoing .init) ∈ (deliver env { net with messages := m }
        (net.messages.assureConnection id .outgoing).2).sent ↔
      id ∉ net.messages.connections ∧ env.webRtc.spawned ∧ id ∉ net.webRtc.connections := by
  unfold Network.Messages.assureConnection
  split
  case isTrue hm  => simp [deliver, hm]
  case isFalse hm => simp [deliver, hm, WebRTCConn.sent_connect]

theorem reconnects_iff (hr : Runs config h net) (hd : Released config id h)
    (hi : input = .call (.connect id) ∨ ∃ msg, input = .call (.messageToNode id msg)) :
    ∃ s, net.step env input = some s ∧
      ((id, .setup .outgoing .init) ∈ s.sent ↔
        env.webRtc.spawned ∧ id ∉ net.webRtc.connections) := by
  have hn : env.webRtc.spawned ∧ id ∉ net.webRtc.connections → id ∉ net.messages.connections :=
    fun hc => not_mem_of_released hr hd hc.right
  rcases hi with rfl | ⟨msg, rfl⟩
  case inl =>
    exact ⟨_, rfl, mem_sent_assure.trans ⟨And.right, fun hc => ⟨hn hc, hc⟩⟩⟩
  case inr =>
    refine ⟨_, rfl, ?_⟩
    change _ ∈ (deliver env _ ((net.messages.assureConnection id .outgoing).2 ++ [_])).sent ↔ _
    rw [sent_deliver_append, List.mem_append, mem_sent_assure]
    constructor
    case mp =>
      rintro (hc | ht)
      case inl => exact hc.right
      case inr =>
        simp only [deliver, WebRTCConn.message, WebRTCConn.sent_trySend, List.append_nil] at ht
        split at ht <;> simp at ht
    case mpr => exact fun hc => .inl ⟨hn hc, hc⟩

end LinkedNetwork

namespace LinkedNetwork

-- Nothing can be read.
abbrev silentJson : NetworkJson where
  toString _ := ""
  fromStr _  := some none

attribute [local instance] NodeConnection.plainSerde silentJson

def plainEnv : Env where
  network := { sign := fun _ hash => some hash }
  webRtc  := { spawned := true, nc := NodeConnection.plainEnv }

def ownConfig : NodeConfig where
  info       :=
    { name := "", client := "libc", pubkey := U256.zero.bytes, modules := Modules.all, id := none }
  keypair    := []
  id         := .zero
  getId_info := rfl

def remote : NodeID :=
  .ofPrefix [0x80]

-- The user disconnects from a node to which there is no connection.
def left : Step where
  net  := { messages := { nodeConfig := ownConfig } }
  out  := [.disconnected remote]
  sent := []

theorem runs_left : Runs ownConfig [⟨.call (.disconnect remote), left.out⟩] left.net :=
  .step plainEnv _ .start (fun _ h => by cases h) rfl

theorem reconnects_iff_left :
    ∃ s, left.net.step plainEnv (.call (.connect remote)) = some s ∧
      ((remote, .setup .outgoing .init) ∈ s.sent ↔
        plainEnv.webRtc.spawned ∧ remote ∉ left.net.webRtc.connections) :=
  reconnects_iff runs_left (.inl List.mem_cons_self) (.inl rfl)

theorem not_reconnects : ∃ h net s, Runs ownConfig h net ∧ Released ownConfig remote h ∧
    net.step plainEnv (.call (.connect remote)) = some s ∧
    (remote, .setup .outgoing .init) ∉ s.sent := by
  have h₀ : Runs ownConfig [] { messages := { nodeConfig := ownConfig } } := .start
  have h₁ := h₀.step plainEnv (.call (.connect remote)) (fun _ h => by cases h) rfl
  have h₂ := h₁.step plainEnv (.conn remote .outgoing .connected) (fun _ h => by cases h) rfl
  have h₃ := h₂.step plainEnv (.conn remote .outgoing .disconnected) (fun _ h => by cases h) rfl
  exact ⟨_, _, _, h₃, .inl (List.mem_singleton.mpr rfl), rfl, List.not_mem_nil⟩

end LinkedNetwork
