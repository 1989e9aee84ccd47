import Fledger.Arch.Packets
import Fledger.Network.Signal

inductive ConnType
  | unknown
  | host
  | stunPeer
  | stunServer
  | turn
deriving DecidableEq

inductive SignalingState
  | closed
  | setup
  | stable
deriving DecidableEq

inductive IceGatheringState
  | new
  | gathering
  | complete
deriving DecidableEq

inductive IceConnectionState
  | new
  | checking
  | connected
  | completed
  | failed
  | disconnected
  | closed
deriving DecidableEq

inductive DataChannelState
  | connecting
  | open_
  | closing
  | closed
deriving DecidableEq

-- The values are those of `Default`.
structure ConnectionStateMap where
  typeLocal      : ConnType                := .unknown
  typeRemote     : ConnType                := .unknown
  signaling      : SignalingState          := .closed
  iceGathering   : IceGatheringState       := .new
  iceConnection  : IceConnectionState      := .new
  dataConnection : Option DataChannelState := none
  rxBytes        : UInt64                  := 0
  txBytes        : UInt64                  := 0
  delayMs        : UInt32                  := 0
deriving DecidableEq

inductive Direction
  | incoming
  | outgoing
deriving DecidableEq

def PeerInfo.getDirection (pi : PeerInfo) (local_ : NodeID) : Direction :=
  if pi.idInit = local_ then .outgoing else .incoming

inductive WebRTCInput
  | text (msg : String)
  | setup (pm : PeerMessage)
  | flush
  | updateState
  | reset
  | disconnect
deriving DecidableEq

inductive WebRTCOutput
  | connected
  | disconnected
  | text (msg : String)
  | setup (pm : PeerMessage)
  | state (state : ConnectionStateMap)
  | error (msg : String)
deriving DecidableEq

inductive NCInput
  | text (msg : String)
  | disconnect
  | getStates
  | setup (dir : Direction) (pm : PeerMessage)
  | incoming (msg : WebRTCOutput)
  | outgoing (msg : WebRTCOutput)
deriving DecidableEq

inductive NCOutput
  | connected (dir : Direction)
  | disconnected (dir : Direction)
  | text (msg : String)
  | state (dir : Direction) (state : ConnectionStateMap)
  | setup (dir : Direction) (pm : PeerMessage)
  | incoming (msg : WebRTCInput)
  | outgoing (msg : WebRTCInput)
deriving DecidableEq

-- What comes from a direction.
def NCInput.of (msg : WebRTCOutput) : Direction → NCInput
  | .incoming => .incoming msg
  | .outgoing => .outgoing msg

def NCInput.fromDir (dir : Direction) : NCInput → Option WebRTCOutput
  | .incoming msg => if dir = .incoming then some msg else none
  | .outgoing msg => if dir = .outgoing then some msg else none
  | _             => none

theorem NCInput.fromDir_of (m : WebRTCOutput) (d dir : Direction) :
    (of m d).fromDir dir = if dir = d then some m else none := by
  cases d <;> rfl

@[elab_as_elim]
theorem NCInput.casesDir {motive : NCInput → Prop} (text : ∀ msg, motive (.text msg))
    (disconnect : motive .disconnect) (getStates : motive .getStates)
    (setup : ∀ dir pm, motive (.setup dir pm)) (conn : ∀ msg dir, motive (.of msg dir)) :
    ∀ msg, motive msg
  | .text msg     => text msg
  | .disconnect   => disconnect
  | .getStates    => getStates
  | .setup dir pm => setup dir pm
  | .incoming msg => conn msg .incoming
  | .outgoing msg => conn msg .outgoing

def NCOutput.to (msg : WebRTCInput) : Direction → NCOutput
  | .incoming => .incoming msg
  | .outgoing => .outgoing msg

structure NodeConnection where
  msgQueue        : List String               := []
  packetCollector : PacketCollector           := {}
  stateIncoming   : Option ConnectionStateMap := none
  stateOutgoing   : Option ConnectionStateMap := none

namespace NodeConnection

-- What a handler asks for: a random id, and an order of the packets.
structure Env where
  rnd    : U256
  rehash : PacketCollector.Rehash

def IsOpen (state : Option ConnectionStateMap) : Prop :=
  state.bind (·.dataConnection) = some .open_

instance : DecidablePred IsOpen :=
  fun state => inferInstanceAs <| Decidable (state.bind (·.dataConnection) = some .open_)

def state (nc : NodeConnection) : Direction → Option ConnectionStateMap
  | .incoming => nc.stateIncoming
  | .outgoing => nc.stateOutgoing

def setState (nc : NodeConnection) (state : Option ConnectionStateMap) : Direction → NodeConnection
  | .incoming => { nc with stateIncoming := state }
  | .outgoing => { nc with stateOutgoing := state }

def send (nc : NodeConnection) (dir : Direction) (state : Option ConnectionStateMap) :
    NodeConnection × List NCOutput :=
  if IsOpen state then
    ({ nc with msgQueue := [] }, nc.msgQueue.map fun msg => NCOutput.to (.text msg) dir)
  else (nc, [])

def sendQueue (nc : NodeConnection) : NodeConnection × List NCOutput :=
  let (nc, out₁) :=
    if nc.msgQueue.length > 0 then nc.send .outgoing nc.stateOutgoing else (nc, [])
  let (nc, out₂) :=
    if nc.msgQueue.length > 0 then nc.send .incoming nc.stateIncoming else (nc, [])
  (nc, out₁ ++ out₂)

variable [PacketSerde]

def msgIn (env : Env) (nc : NodeConnection) : NCInput → NodeConnection × List NCOutput
  | .text msg            =>
    sendQueue { nc with msgQueue := nc.msgQueue ++ Packet.splitMsg env.rnd msg }
  | .disconnect          => (nc, [.incoming .disconnect, .outgoing .disconnect])
  | .getStates           =>
    (nc, (nc.stateIncoming.map (.state .incoming)).toList ++
      (nc.stateOutgoing.map (.state .outgoing)).toList)
  | .setup .incoming pm  => (nc, [.incoming (.setup pm)])
  | .setup .outgoing pm  =>
    ({ nc with stateOutgoing := nc.stateOutgoing.or (some {}) }, [.outgoing (.setup pm)])
  | .incoming _          => (nc, [])
  | .outgoing _          => (nc, [])

-- As long as the collector does not panic.
def msgConn (env : Env) (nc : NodeConnection) (dir : Direction) :
    WebRTCOutput → NodeConnection × List NCOutput
  | .connected    =>
    let (nc, out) := (nc.setState (some { dataConnection := some .open_ }) dir).sendQueue
    (nc, .connected dir :: out)
  | .setup pm     => (nc, [.setup dir pm])
  | .text msg     =>
    let (packetCollector, msg) := nc.packetCollector.takePacketStr env.rehash msg
    ({ nc with packetCollector }, (msg.map .text).toList)
  | .state state  => (nc.setState (some state) dir, [.state dir state])
  | .disconnected => (nc.setState none dir, [.to .reset dir, .disconnected dir])
  | .error _      => (nc.setState none dir, [.to .reset dir, .disconnected dir])

def message (env : Env) (nc : NodeConnection) : NCInput → NodeConnection × List NCOutput
  | .incoming msg => nc.msgConn env .incoming msg
  | .outgoing msg => nc.msgConn env .outgoing msg
  | msg           => nc.msgIn env msg

-- A text can make the collector panic, which ends the task of the connection.
def handle [Target] (env : Env) (nc : NodeConnection) (dir : Direction) :
    WebRTCOutput → Option (NodeConnection × List NCOutput)
  | .text msg => do
    let (packetCollector, msg) ← nc.packetCollector.newPacketStr env.rehash msg
    return ({ nc with packetCollector }, (msg.map .text).toList)
  | msg       => some (nc.msgConn env dir msg)

-- The direction which a text takes.
def route (nc : NodeConnection) : Option Direction :=
  if IsOpen nc.stateOutgoing then some .outgoing
  else if IsOpen nc.stateIncoming then some .incoming
  else none

-- If texts wait, there is no open channel.
def Waits (nc : NodeConnection) : Prop :=
  nc.msgQueue ≠ [] → nc.route = none

section

omit [PacketSerde]

variable {nc : NodeConnection} {dir d : Direction} {text : String}

-- A new setup does not open a channel.
theorem isOpen_or (state : Option ConnectionStateMap) :
    IsOpen (state.or (some {})) ↔ IsOpen state := by
  cases state
  case none => decide
  case some => rfl

theorem route_eq_none : nc.route = none ↔ ∀ dir, ¬ IsOpen (nc.state dir) := by
  constructor
  case mp =>
    intro h dir ho
    unfold route at h
    cases dir
    case incoming =>
      rw [if_pos (c := IsOpen nc.stateIncoming) ho] at h
      split at h <;> cases h
    case outgoing =>
      rw [if_pos (c := IsOpen nc.stateOutgoing) ho] at h
      cases h
  case mpr =>
    intro h
    exact (if_neg (h .outgoing)).trans <| if_neg (h .incoming)

theorem isOpen_of_route (h : nc.route = some dir) : IsOpen (nc.state dir) := by
  unfold route at h
  split at h
  case isTrue ho => cases h; exact ho
  case isFalse =>
    split at h
    case isTrue ho => cases h; exact ho
    case isFalse   => cases h

theorem state_setState (nc : NodeConnection) (state : Option ConnectionStateMap)
    (dir d : Direction) :
    (nc.setState state dir).state d = if d = dir then state else nc.state d := by
  cases dir <;> cases d <;> rfl

theorem msgQueue_setState (nc : NodeConnection) (state : Option ConnectionStateMap)
    (dir : Direction) : (nc.setState state dir).msgQueue = nc.msgQueue := by
  cases dir <;> rfl

-- All that waits is sent in the direction which is open, and nothing if none is.
theorem sendQueue_eq (nc : NodeConnection) :
    nc.sendQueue = match nc.route with
      | none     => (nc, [])
      | some dir =>
        ({ nc with msgQueue := [] }, nc.msgQueue.map fun msg => NCOutput.to (.text msg) dir) := by
  obtain ⟨queue, collector, i, o⟩ := nc
  unfold sendQueue send route
  cases queue <;> by_cases ho : IsOpen o <;> by_cases hi : IsOpen i <;> simp [ho, hi]

theorem state_sendQueue (nc : NodeConnection) (dir : Direction) :
    nc.sendQueue.1.state dir = nc.state dir := by
  rw [sendQueue_eq]
  split <;> rfl

theorem mem_sendQueue : NCOutput.to (.text text) dir ∈ nc.sendQueue.2 ↔
    nc.route = some dir ∧ text ∈ nc.msgQueue := by
  rw [sendQueue_eq]
  split
  case h_1 hr => simp [hr]
  case h_2 d hr =>
    cases d <;> cases dir <;> simp [NCOutput.to, hr]

-- A direction which is not open keeps texts waiting.
theorem Waits.setState (h : nc.Waits) {state : Option ConnectionStateMap}
    (hs : nc.msgQueue ≠ [] → ¬ IsOpen state) : (nc.setState state dir).Waits := by
  intro hq
  rw [msgQueue_setState] at hq
  refine route_eq_none.mpr fun d => ?_
  rw [state_setState]
  split
  case isTrue  => exact hs hq
  case isFalse => exact route_eq_none.mp (h hq) d

theorem waits_sendQueue (nc : NodeConnection) : nc.sendQueue.1.Waits := by
  rw [sendQueue_eq]
  split
  case h_1 hr => exact fun _ => hr
  case h_2    => exact fun h => absurd rfl h

end

def opened : Option ConnectionStateMap :=
  some { dataConnection := some .open_ }

-- A direction reports an open channel while texts wait.
def Stuck (nc : NodeConnection) (msg : NCInput) : Prop :=
  nc.msgQueue ≠ [] ∧ ∃ dir s, msg = .of (.state s) dir ∧ IsOpen (some s)

variable {env : Env} {nc : NodeConnection} {msg : NCInput} {dir d : Direction} {text : String}

theorem message_of (env : Env) (nc : NodeConnection) (m : WebRTCOutput) (dir : Direction) :
    nc.message env (.of m dir) = nc.msgConn env dir m := by
  cases dir <;> rfl

theorem splitMsg_ne_nil (rnd : U256) (text : String) : Packet.splitMsg rnd text ≠ [] := by
  rw [Packet.splitMsg_eq]
  refine fun h => Packet.parts_ne_nil text <| List.eq_nil_of_length_eq_zero ?_
  rw [← Packet.length_packets rnd, List.map_eq_nil_iff.mp h, List.length_nil]

theorem waits_message (h : nc.Waits) (hs : ¬ nc.Stuck msg) : (nc.message env msg).1.Waits := by
  induction msg using NCInput.casesDir
  case text text  => exact waits_sendQueue _
  case disconnect => exact h
  case getStates  => exact h
  case setup dir pm =>
    cases dir
    case incoming => exact h
    case outgoing =>
      have hn : (nc.setState (nc.stateOutgoing.or (some {})) .outgoing).Waits := by
        refine h.setState fun hq => ?_
        exact mt (isOpen_or _).mp <| route_eq_none.mp (h hq) .outgoing
      exact hn
  case conn m dir =>
    rw [message_of]
    cases m
    case connected    => exact waits_sendQueue _
    case disconnected => exact h.setState fun _ => by decide
    case text         => exact h
    case setup        => exact h
    case error        => exact h.setState fun _ => by decide
    case state s      => exact h.setState fun hq ho => hs ⟨hq, dir, s, rfl, ho⟩

theorem not_waits_of_stuck (env : Env) (h : nc.Stuck msg) : ¬ (nc.message env msg).1.Waits := by
  obtain ⟨hq, dir, s, rfl, ho⟩ := h
  rw [message_of]
  intro hw
  have hr := hw (by simpa [msgConn, msgQueue_setState] using hq)
  refine route_eq_none.mp hr dir ?_
  simpa [msgConn, state_setState] using ho

-- Texts are only sent when there is one to send, and when a direction gets connected.
theorem mem_message : NCOutput.to (.text text) dir ∈ (nc.message env msg).2 ↔
    (∃ t, msg = .text t ∧ nc.route = some dir ∧
      text ∈ nc.msgQueue ++ Packet.splitMsg env.rnd t) ∨
    ∃ d, msg = .of .connected d ∧ (nc.setState opened d).route = some dir ∧
      text ∈ nc.msgQueue := by
  constructor
  case mp =>
    intro h
    induction msg using NCInput.casesDir
    case text t =>
      exact .inl ⟨t, rfl, mem_sendQueue.mp h⟩
    case disconnect => cases dir <;> simp [message, msgIn, NCOutput.to] at h
    case getStates  => cases dir <;> simp [message, msgIn, NCOutput.to] at h
    case setup d pm => cases dir <;> cases d <;> simp [message, msgIn, NCOutput.to] at h
    case conn m d =>
      rw [message_of] at h
      cases m
      case connected =>
        right
        have hm : NCOutput.to (.text text) dir ∈ (nc.setState opened d).sendQueue.2 := by
          cases dir <;> simpa [msgConn, NCOutput.to, opened] using h
        rw [mem_sendQueue, msgQueue_setState] at hm
        exact ⟨d, rfl, hm⟩
      case disconnected => cases dir <;> cases d <;> simp [msgConn, NCOutput.to] at h
      case text         => cases dir <;> simp [msgConn, NCOutput.to] at h
      case setup        => cases dir <;> simp [msgConn, NCOutput.to] at h
      case error        => cases dir <;> cases d <;> simp [msgConn, NCOutput.to] at h
      case state        => cases dir <;> simp [msgConn, NCOutput.to] at h
  case mpr =>
    rintro (⟨t, rfl, h⟩ | ⟨d, rfl, hr, ht⟩)
    case inl => exact mem_sendQueue.mpr h
    case inr =>
      rw [message_of]
      refine List.mem_cons_of_mem _ <| mem_sendQueue.mpr ⟨hr, ?_⟩
      rwa [msgQueue_setState]

-- The state after some inputs, the last of which comes first.
def after : List (Env × NCInput) → NodeConnection
  | []              => {}
  | (env, msg) :: h => ((after h).message env msg).1

-- What a direction has reported last.
def lastReport (dir : Direction) : List NCInput → Option ConnectionStateMap
  | []       => none
  | msg :: h =>
    match msg.fromDir dir with
    | some .connected    => opened
    | some (.state s)    => some s
    | some .disconnected => none
    | some (.error _)    => none
    | _                  => lastReport dir h

-- The direction reports an open channel.
def Opens (dir : Direction) (msg : NCInput) : Prop :=
  msg = .of .connected dir ∨ ∃ s, msg = .of (.state s) dir ∧ IsOpen (some s)

-- The direction has not reported an open channel since the last `NCInput::Disconnect`.
def Stale (dir : Direction) : List NCInput → Prop
  | []       => False
  | msg :: h => msg = .disconnect ∨ ¬ Opens dir msg ∧ Stale dir h

structure Disciplined (log : List (Env × NCInput)) : Prop where
  closed_of_queue : ∀ h, h <:+ log → (after h).msgQueue ≠ [] →
    ∀ dir, ¬ IsOpen (lastReport dir (h.map Prod.snd))
  silent_of_stale : ∀ e h, e :: h <:+ log → ∀ dir, Stale dir ((e :: h).map Prod.snd) →
    ∀ text, NCOutput.to (.text text) dir ∉ ((after h).message e.1 e.2).2

-- A text comes in when the direction which it takes has not reported since the last
-- `NCInput::Disconnect`.
def Late (h : List (Env × NCInput)) (msg : NCInput) : Prop :=
  (∃ text, msg = .text text) ∧ ∃ dir, (after h).route = some dir ∧ Stale dir (h.map Prod.snd)

variable {log h : List (Env × NCInput)}

-- The channels which are open are those which are reported so.
theorem isOpen_after (h : List (Env × NCInput)) (dir : Direction) :
    IsOpen ((after h).state dir) ↔ IsOpen (lastReport dir (h.map Prod.snd)) := by
  induction h
  case nil => cases dir <;> exact .rfl
  case cons e h hi =>
    obtain ⟨env, msg⟩ := e
    simp only [after, List.map_cons]
    induction msg using NCInput.casesDir
    case text       => exact (state_sendQueue _ _).symm ▸ hi
    case disconnect => exact hi
    case getStates  => exact hi
    case setup d pm =>
      cases d
      case incoming => exact hi
      case outgoing =>
        cases dir
        case incoming => exact hi
        case outgoing => exact (isOpen_or _).trans hi
    case conn m d =>
      rw [message_of]
      by_cases hd : dir = d
      case pos =>
        subst hd
        simp only [lastReport, NCInput.fromDir_of, if_true]
        cases m <;> simp only [msgConn, state_sendQueue, state_setState, if_true, opened]
        case text  => exact hi
        case setup => exact hi
      case neg =>
        have hl : lastReport dir (.of m d :: h.map Prod.snd) = lastReport dir (h.map Prod.snd) := by
          simp only [lastReport, NCInput.fromDir_of, if_neg hd]
        have hn : ((after h).msgConn env d m).1.state dir = (after h).state dir := by
          cases m <;> simp only [msgConn, state_sendQueue, state_setState, if_neg hd]
          case text => rfl
        rw [hl, hn]
        exact hi

-- Without stuck texts, texts only wait when there is no open channel.
theorem waits_after (hs : ∀ e h, e :: h <:+ log → ¬ (after h).Stuck e.2) : (after log).Waits := by
  induction log
  case nil => exact fun h => absurd rfl h
  case cons e log hi =>
    refine waits_message (hi fun e h hl => ?_) (hs e log List.suffix_rfl)
    exact hs e h <| hl.trans <| List.suffix_cons _ _

-- A late text is sent on the direction which it takes.
theorem exists_sent_of_late {e : Env × NCInput} (hl : Late h e.2) :
    ∃ dir text, Stale dir ((e :: h).map Prod.snd) ∧
      NCOutput.to (.text text) dir ∈ ((after h).message e.1 e.2).2 := by
  obtain ⟨⟨text, ht⟩, dir, hr, hs⟩ := hl
  obtain ⟨t, hm⟩ := List.exists_mem_of_ne_nil _ <| splitMsg_ne_nil e.1.rnd text
  refine ⟨dir, t, .inr ⟨?_, hs⟩, mem_message.mpr <| .inl ?_⟩
  case _ =>
    rw [ht]
    rintro (ho | ⟨_, ho, _⟩) <;> cases dir <;> cases ho
  case _ => exact ⟨text, ht, hr, List.mem_append_right _ hm⟩

omit [PacketSerde] in
-- Nothing else is open when texts wait, so the texts take the direction which reports.
theorem eq_of_route_of_waits {nc : NodeConnection} {dir d : Direction} (hw : nc.Waits)
    (hq : nc.msgQueue ≠ []) (hr : (nc.setState opened d).route = some dir) : dir = d := by
  by_contra hne
  have ho := isOpen_of_route hr
  rw [state_setState, if_neg hne] at ho
  exact route_eq_none.mp (hw hq) dir ho

theorem disciplined_iff (log : List (Env × NCInput)) :
    Disciplined log ↔
      ∀ e h, e :: h <:+ log → ¬ (after h).Stuck e.2 ∧ ¬ Late h e.2 := by
  constructor
  case mp =>
    intro hd e h hl
    constructor
    case left =>
      refine fun hs => not_waits_of_stuck e.1 hs fun hq => route_eq_none.mpr fun dir => ?_
      exact mt (isOpen_after (e :: h) dir).mp <| hd.closed_of_queue _ hl hq dir
    case right =>
      intro hlate
      obtain ⟨dir, text, hs, hm⟩ := exists_sent_of_late hlate
      exact hd.silent_of_stale e h hl dir hs text hm
  case mpr =>
    intro ho
    constructor
    case closed_of_queue =>
      intro h hl hq dir
      have hw : (after h).Waits := waits_after fun e h' hl' => (ho e h' (hl'.trans hl)).left
      exact mt (isOpen_after h dir).mpr <| route_eq_none.mp (hw hq) dir
    case silent_of_stale =>
      intro e h hl dir hs text hm
      rcases mem_message.mp hm with ⟨t, ht, hr, _⟩ | ⟨d, hc, hr, hq⟩
      case inl =>
        refine (ho e h hl).right ⟨⟨t, ht⟩, dir, hr, ?_⟩
        rcases hs with hs | ⟨_, hs⟩
        case inl => cases ht.symm.trans hs
        case inr => exact hs
      case inr =>
        have hw : (after h).Waits := waits_after fun e' h' hl' =>
          (ho e' h' <| hl'.trans <| (List.suffix_cons _ _).trans hl).left
        have hdir : dir = d := eq_of_route_of_waits hw (List.ne_nil_of_mem hq) hr
        subst hdir
        rcases hs with hs | ⟨hs, _⟩
        case inl => cases dir <;> cases hc.symm.trans hs
        case inr => exact hs (.inl hc)

end NodeConnection

namespace NodeConnection

abbrev plainSerde : PacketSerde :=
  .reading []

attribute [local instance] plainSerde

def plainEnv : Env where
  rnd    := .zero
  rehash := HashMap.Rehash.same

-- A text waits when the outgoing connection reports an open channel.
def stuckLog : List (Env × NCInput) :=
  [(plainEnv, .outgoing (.state { dataConnection := some .open_ })), (plainEnv, .text "hi")]

-- A text comes in after a disconnect of which the connection has not reported yet.
def lateLog : List (Env × NCInput) :=
  [(plainEnv, .text "hi"), (plainEnv, .disconnect), (plainEnv, .outgoing .connected)]

theorem not_disciplined : ¬ Disciplined stuckLog ∧ ¬ Disciplined lateLog := by
  constructor
  case left =>
    intro hd
    exact hd.closed_of_queue stuckLog List.suffix_rfl (by decide) .outgoing (by decide)
  case right =>
    intro hd
    refine hd.silent_of_stale (plainEnv, .text "hi") _ List.suffix_rfl .outgoing ?_
      (Packet.json { id := none, part := none, total := none, data := "hi" }) ?_
    case refine_1 =>
      refine .inr ⟨?_, .inl rfl⟩
      rintro (h | ⟨_, h, _⟩) <;> cases h
    case refine_2 => exact List.mem_singleton.mpr rfl

end NodeConnection
