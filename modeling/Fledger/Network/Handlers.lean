import Fledger.Network.Signal

namespace SignalServer

variable {s s' : SignalServer} {env : SignalEnv} {input : SignalIn} {out : List SignalOut}
  {index i : Nat} {id : U256} {text : String}

-- What the server keeps for a connection: first the challenge, then the id of the node.
def entry (s : SignalServer) (i : Nat) : Option U256 :=
  s.connectionIds.getByRight i

-- A connection from which a message arrived.
def refresh (s : SignalServer) (index : Nat) : SignalServer :=
  { s with ttl := HashMap.modify s.ttl index fun _ => s.config.ttlMinutes }

-- A new connection, to which the challenge is sent.
def accept (s : SignalServer) (index : Nat) (challenge : U256) : SignalServer :=
  { s with
    connectionIds := s.connectionIds.insert challenge index
    ttl           := s.ttl.insert index s.config.ttlMinutes }

-- A node which has proven its id.
def register (s : SignalServer) (index : Nat) (id : U256) (info : NodeInfo) : SignalServer :=
  { s with
    connectionIds := s.connectionIds.insert id index
    info          := s.info.insert id info }

theorem getByLeft_eq_some : s.connectionIds.getByLeft id = some i ↔ s.entry i = some id :=
  BiMap.getByLeft_iff_getByRight

theorem entry_accept : (s.accept index id).entry i = some id' ↔
    (id' = id ∧ i = index) ∨ (s.entry i = some id' ∧ id' ≠ id ∧ i ≠ index) :=
  BiMap.getByRight_insert_iff

theorem entry_register {info : NodeInfo} : (s.register index id info).entry i = some id' ↔
    (id' = id ∧ i = index) ∨ (s.entry i = some id' ∧ id' ≠ id ∧ i ≠ index) :=
  BiMap.getByRight_insert_iff

theorem entry_removeNode :
    (s.removeNode index).entry i = some id ↔ i ≠ index ∧ s.entry i = some id :=
  BiMap.getByRight_removeByRight_iff

variable [SignalJson] [Ed25519Compact]

-- The text announces the id, with a signature of what is kept for the connection.
structure Registers (s : SignalServer) (index : Nat) (text : String)
    (ann : MessageAnnounce NodeInfo) (challenge id : U256) : Prop where
  json     : WSSignalMessageFromNode.fromJson text = some (some (.announce ann))
  entry    : s.entry index = some challenge
  verified : ann.nodeInfo.verify challenge.bytes ann.signature = some true
  getId    : ann.nodeInfo.getId = some id

-- The text is for the other endpoint, which is known as well.
structure Forwards (s : SignalServer) (index : Nat) (text : String) (pi : PeerInfo) (id dst : U256)
    (dstIndex : Nat) : Prop where
  json   : WSSignalMessageFromNode.fromJson text = some (some (.peerSetup pi))
  entry  : s.entry index = some id
  remote : pi.getRemote id = some dst
  dst    : s.entry dstIndex = some dst

-- All that the handlers do.
inductive Handles (s s' : SignalServer) (env : SignalEnv) (input : SignalIn)
    (out : List SignalOut) : Prop
  | ticks
    (input : input = .timer)
    (state : s.msgInTimer = some s')
    (out : out = [])
  | removes (index : Nat)
    (input : input = .wsServer (.disconnection index))
    (state : s' = s.removeNode index)
    (out : out = [])
  | connects (index : Nat) (reply : String)
    (input : input = .wsServer (.newConnection index))
    (written : SignalJson.toString (.challenge signalVersion env.rnd) = some reply)
    (state : s' = s.accept index env.rnd)
    (out : out = [.wsServer (.message index reply)])
  | registers (index : Nat) (text : String) (ann : MessageAnnounce NodeInfo) (challenge id : U256)
    (reply : String)
    (input : input = .wsServer (.message index text))
    (registers : s.Registers index text ann challenge id)
    (written : SignalJson.toString (.systemConfig ⟨s.config.systemRealm⟩) = some reply)
    (state : s' = (s.refresh index).register index id ann.nodeInfo)
    (out : out = [.wsServer (.message index reply), .newNode id])
  | forwards (index : Nat) (text : String) (pi : PeerInfo) (id dst : U256) (dstIndex : Nat)
    (reply : String)
    (input : input = .wsServer (.message index text))
    (forwards : s.Forwards index text pi id dst dstIndex)
    (written : SignalJson.toString (.peerSetup pi) = some reply)
    (state : s' = s.refresh index)
    (out : out = [.wsServer (.message dstIndex reply)])
  | lists (index : Nat) (text : String)
    (input : input = .wsServer (.message index text))
    (json : WSSignalMessageFromNode.fromJson text = some (some .listIdsRequest))
    (reply : s.wsListIds env index = some out)
    (state : s' = s.refresh index)
  | refreshes (index : Nat) (text : String)
    (input : input = .wsServer (.message index text))
    (unregistered : ∀ ann challenge id, ¬ s.Registers index text ann challenge id)
    (unforwarded : ∀ pi id dst dstIndex, ¬ s.Forwards index text pi id dst dstIndex)
    (state : s' = s.refresh index)
    (out : out = [] ∨ ∃ stats, out = [.nodeStats stats])
  | passes
    (input : input = .stop ∨ input = .wsServer .stopped)
    (state : s' = s)
    (out : out = [.wsServer .stop] ∨ out = [.stopped])

section

variable {ann : MessageAnnounce NodeInfo} {msg : WSSignalMessageToNode} {pi : PeerInfo}

omit [Ed25519Compact] in
theorem sendMsgNode_eq_some : sendMsgNode index msg = some out ↔
    ∃ reply, SignalJson.toString msg = some reply ∧ out = [.wsServer (.message index reply)] := by
  simp only [sendMsgNode, Option.bind_eq_bind, Option.pure_def, Option.bind_eq_some_iff,
    Option.some.injEq, eq_comm (b := out)]

theorem handles_of_wsAnnounce
    (hj : WSSignalMessageFromNode.fromJson text = some (some (.announce ann)))
    (h : (s.refresh index).wsAnnounce index ann = some (s', out)) :
    Handles s s' env (.wsServer (.message index text)) out := by
  -- The text is no message for another node.
  have hf pi id dst j : ¬ s.Forwards index text pi id dst j := fun hf => by
    cases hj.symm.trans hf.json
  cases he : s.entry index
  case none =>
    rw [wsAnnounce, show (s.refresh index).connectionIds.getByRight index = none from he] at h
    cases h
    refine .refreshes index text rfl (fun _ _ _ hr => ?_) hf rfl (.inl rfl)
    cases he.symm.trans hr.entry
  case some challenge =>
    rw [wsAnnounce, show (s.refresh index).connectionIds.getByRight index = _ from he] at h
    obtain ⟨verified, hv, h⟩ := Option.bind_eq_some_iff.mp h
    cases verified
    case false =>
      cases h
      refine .refreshes index text rfl (fun ann' challenge' _ hr => ?_) hf rfl (.inl rfl)
      cases hj.symm.trans hr.json
      cases he.symm.trans hr.entry
      cases hv.symm.trans hr.verified
    case true =>
      obtain ⟨id, hid, h⟩ := Option.bind_eq_some_iff.mp h
      obtain ⟨msgs, hm, h⟩ := Option.bind_eq_some_iff.mp h
      obtain ⟨reply, hr, rfl⟩ := sendMsgNode_eq_some.mp hm
      cases h
      exact .registers index text ann challenge id reply rfl ⟨hj, he, hv, hid⟩ hr rfl rfl

theorem handles_of_wsPeerSetup
    (hj : WSSignalMessageFromNode.fromJson text = some (some (.peerSetup pi)))
    (h : (s.refresh index).wsPeerSetup index pi = some out) :
    Handles s (s.refresh index) env (.wsServer (.message index text)) out := by
  -- The text announces nothing.
  have hr ann challenge id : ¬ s.Registers index text ann challenge id := fun hr => by
    cases hj.symm.trans hr.json
  unfold wsPeerSetup at h
  split at h
  case h_1 he =>
    cases h
    refine .refreshes index text rfl hr (fun _ _ _ _ hf => ?_) rfl (.inl rfl)
    cases hf.entry.symm.trans he
  case h_2 id he =>
    split at h
    case h_1 dstIndex hd =>
      obtain ⟨dst, hdst, hd⟩ := Option.bind_eq_some_iff.mp hd
      obtain ⟨reply, ht, rfl⟩ := sendMsgNode_eq_some.mp h
      exact .forwards index text pi id dst dstIndex reply rfl
        ⟨hj, he, hdst, getByLeft_eq_some.mp hd⟩ ht rfl rfl
    case h_2 hd =>
      cases h
      refine .refreshes index text rfl hr (fun pi' id' dst j hf => ?_) rfl (.inl rfl)
      cases hj.symm.trans hf.json
      cases he.symm.trans hf.entry
      have hs := Option.bind_eq_some_iff.mpr ⟨dst, hf.remote, getByLeft_eq_some.mpr hf.dst⟩
      cases hd.symm.trans hs

theorem handles_of_msgIn (h : s.msgIn env input = some (s', out)) :
    Handles s s' env input out := by
  cases input
  case stop => cases h; exact .passes (.inl rfl) rfl (.inl rfl)
  case timer =>
    have ⟨t, ht, he⟩ := Option.map_eq_some_iff.mp h
    cases he
    exact .ticks rfl ht rfl
  case wsServer msg =>
    cases msg
    case stopped          => cases h; exact .passes (.inr rfl) rfl (.inr rfl)
    case disconnection id => cases h; exact .removes id rfl rfl rfl
    case newConnection index =>
      have ⟨_, hm, h⟩ := Option.bind_eq_some_iff.mp h
      have ⟨reply, hr, ho⟩ := sendMsgNode_eq_some.mp hm
      cases h
      exact .connects index reply rfl hr rfl ho
    case message index text =>
      have ⟨msg, hj, h⟩ := Option.bind_eq_some_iff.mp h
      cases msg
      case none =>
        cases h
        refine .refreshes index text rfl (fun _ _ _ hr => ?_) (fun _ _ _ _ hf => ?_) rfl (.inl rfl)
        · cases hj.symm.trans hr.json
        · cases hj.symm.trans hf.json
      case some msg =>
        cases msg
        case announce ann => exact handles_of_wsAnnounce hj h
        case nodeStats stats =>
          cases h
          refine .refreshes index text rfl (fun _ _ _ hr => ?_) (fun _ _ _ _ hf => ?_) rfl
            (.inr ⟨stats, rfl⟩)
          · cases hj.symm.trans hr.json
          · cases hj.symm.trans hf.json
        case listIdsRequest =>
          have ⟨msgs, hm, he⟩ := Option.map_eq_some_iff.mp h
          cases he
          exact .lists index text rfl hj hm rfl
        case peerSetup pi =>
          have ⟨msgs, hm, he⟩ := Option.map_eq_some_iff.mp h
          cases he
          exact handles_of_wsPeerSetup hj hm

end

end SignalServer
