import Fledger.DhtRouter.Blacklist
import Fledger.Flo.Concrete

namespace DHTRouter

-- The step forwards a request to a node.
def RouterEvent.Forwards [Yaml ModuleMessage] [Yaml MessageClosest] (e : RouterEvent) (id : U256)
    (node : NodeID) : Prop :=
  ∃ from_ w orig key msg, e.input = .network (.networkWrapperFromNetwork from_ w) ∧
    w.unwrapYaml ModuleMessage dhtRouterName = some (.closest orig key msg) ∧
    Messages.getReadfloId msg = some id ∧ node ∈ Messages.routed e.out

-- The message is the reply to a request.
def RepliesTo [Yaml MessageDest] (msg : NetworkWrapper) (id : U256) : Prop :=
  ∃ fc, msg.unwrapYaml MessageDest dhtStorageName = some (.floValue fc (some id))

-- The reply comes by, for this node or for another one, or the storage of this node gives it.
inductive InternIn.Answers [Yaml ModuleMessage] [Yaml MessageDest] : InternIn → U256 → Prop
  | network {from_ orig dst : NodeID} {w msg : NetworkWrapper} {id : U256}
    (direct : w.unwrapYaml ModuleMessage dhtRouterName = some (.direct orig dst msg))
    (replies : RepliesTo msg id) : Answers (.network <| .networkWrapperFromNetwork from_ w) id
  | storage {dst : NodeID} {msg : NetworkWrapper} {id : U256} (replies : RepliesTo msg id) :
    Answers (.dhtRouter <| .messageDirect dst msg) id

variable [Yaml ModuleMessage] [Yaml MessageClosest]

-- The request was forwarded to the node, and the reply has not come by since.
def Unanswered [Yaml MessageDest] (h : List RouterEvent) (id : U256) (node : NodeID) : Prop :=
  ∃ later e earlier, h = later ++ e :: earlier ∧ e.Forwards id node ∧
    ∀ e' ∈ later, ¬ e'.input.Answers id

section

variable [Yaml MessageDest] {h : List RouterEvent} {e : RouterEvent} {id : U256} {node : NodeID}

theorem RouterEvent.Forwards.unanswered (hf : e.Forwards id node) : Unanswered (e :: h) id node :=
  ⟨[], e, h, rfl, hf, fun _ hm => absurd hm List.not_mem_nil⟩

theorem Unanswered.step (hu : Unanswered h id node) (hn : ¬ e.input.Answers id) :
    Unanswered (e :: h) id node := by
  obtain ⟨later, e', earlier, rfl, hf, hl⟩ := hu
  refine ⟨e :: later, e', earlier, rfl, hf, fun e'' hm => ?_⟩
  rcases List.mem_cons.mp hm with rfl | hm
  · exact hn
  · exact hl e'' hm

theorem not_unanswered (ha : e.input.Answers id) : ¬ Unanswered (e :: h) id node := by
  rintro ⟨later, e', earlier, he, hf, hl⟩
  cases later
  case cons => cases he; exact hl e List.mem_cons_self ha
  case nil =>
    cases he
    obtain ⟨_, _, _, _, _, hi, hu, _⟩ := hf
    rw [hi] at ha
    cases ha
    case network hd _ => cases hu.symm.trans hd

end

namespace Messages

variable {m m' : Messages} {env : Env} {input : InternIn} {out : List InternOut} {id : U256}
  {node : NodeID}

omit [Yaml ModuleMessage] [Yaml MessageClosest] in
-- The requests of a node which is blacklisted are forgotten.
theorem lookup_of_blacklistBadNodes (hb : m.blacklistBadNodes env = some m')
    (hl : m'.requestsInFlight.lookup id = some node) :
    m.requestsInFlight.lookup id = some node := by
  refine blacklistBadNodes_invariant (P := fun m' => m'.requestsInFlight.lookup id = some node →
    m.requestsInFlight.lookup id = some node) hb (fun hl => hl) ?_ hl
  intro m₁ m₂ _ hi _ hs hl
  simp only [blacklist, Option.bind_eq_bind, Option.pure_def, Option.bind_eq_some_iff,
    Option.some.injEq] at hs
  obtain ⟨_, _, rfl⟩ := hs
  rw [HashMap.lookup_foldl_erase] at hl
  split at hl
  case isTrue  => cases hl
  case isFalse => exact hi hl

theorem lookup_of_messageClosest {orig from_ key : U256} {msg : NetworkWrapper}
    (hc : m.messageClosest env orig from_ key msg = some (m', out))
    (hl : m'.requestsInFlight.lookup id = some node) :
    m.requestsInFlight.lookup id = some node ∨ getReadfloId msg = some id ∧ node ∈ routed out := by
  obtain ⟨m₁, m₂, h₁, h₂, hf⟩ := messageClosest_cases hc
  have hw : m₂.requestsInFlight = m₁.requestsInFlight := by
    obtain rfl | ⟨_, _, _, rfl⟩ := randomlyWhitelist_cases h₂ <;> rfl
  have hold (hl : m₂.requestsInFlight.lookup id = some node) :
      m.requestsInFlight.lookup id = some node := lookup_of_blacklistBadNodes h₁ <| hw ▸ hl
  obtain ⟨_, rfl, _⟩ | ⟨y, w, _, rfl, _, rfl⟩ := hf
  case inl => exact .inl <| hold hl
  case inr =>
    cases hr : getReadfloId msg <;> simp only [hr] at hl
    case none => exact .inl <| hold hl
    case some readfloId =>
      rw [HashMap.lookup_insert_eq] at hl
      split at hl
      case isFalse   => exact .inl <| hold hl
      case isTrue hi =>
        cases hl
        exact .inr ⟨congrArg some hi.symm, List.mem_singleton_self _⟩

-- A request is in flight since it was forwarded.
theorem lookup_of_message (hm : m.message env input = some (m', out))
    (hl : m'.requestsInFlight.lookup id = some node) :
    m.requestsInFlight.lookup id = some node ∨ RouterEvent.Forwards ⟨env, input, out⟩ id node := by
  obtain ⟨from_, w, rfl, hp⟩ | ⟨_, _, rfl, _⟩ := message_cases hm
  case inr => exact .inl hl
  case inl =>
    obtain ⟨m₁, rfl, ⟨orig, key, msg, out₁, hu, hc, hr⟩ | ⟨_, _, _, ha, _⟩ | ⟨rfl, _⟩⟩ :=
      processNodeMessage_cases hp
    · refine (lookup_of_messageClosest hc hl).imp_right fun ⟨hi, hn⟩ => ?_
      exact ⟨from_, w, orig, key, msg, rfl, hu, hi, hr ▸ hn⟩
    · obtain ⟨_, _, rfl, _⟩ := addNodes_cases ha
      exact .inl hl
    · exact .inl hl

-- A reply changes nothing about the requests which are in flight.
theorem requestsInFlight_of_answers [Yaml MessageDest] (ha : input.Answers id)
    (hm : m.message env input = some (m', out)) : m'.requestsInFlight = m.requestsInFlight := by
  obtain ⟨_, _, hi, hp⟩ | ⟨_, _, rfl, _⟩ := message_cases hm
  case inr => rfl
  case inl =>
    rw [hi] at ha
    cases ha
    case network hd _ =>
      obtain ⟨m₁, rfl, ⟨_, _, _, _, hu, _⟩ | ⟨_, _, hu, _⟩ | ⟨rfl, _⟩⟩ :=
        processNodeMessage_cases hp
      · cases hd.symm.trans hu
      · cases hd.symm.trans hu
      · rfl

theorem blacklisted_of_message (hm : m.message env input = some (m', out))
    (hn : node ∈ m'.blacklistedNodes) :
    node ∈ m.blacklistedNodes ∨ 10 < m.requestsInFlight.values.count node := by
  obtain ⟨_, _, rfl, hp⟩ | ⟨_, _, rfl, _⟩ := message_cases hm
  case inr => exact .inl hn
  case inl =>
    obtain ⟨m₁, rfl, ⟨_, _, _, _, _, hc, _⟩ | ⟨_, _, _, ha, _⟩ | ⟨rfl, _⟩⟩ :=
      processNodeMessage_cases hp
    · obtain ⟨m₂, m₃, h₁, h₂, hf⟩ := messageClosest_cases hc
      have hn : node ∈ m₃.blacklistedNodes := by
        obtain ⟨_, rfl, _⟩ | ⟨_, _, _, rfl, _⟩ := hf <;> exact hn
      refine mem_of_blacklistBadNodes h₁ node ?_
      obtain rfl | ⟨_, _, _, rfl⟩ := randomlyWhitelist_cases h₂
      · exact hn
      · exact List.mem_of_mem_erase hn
    · obtain ⟨_, _, rfl, _⟩ := addNodes_cases ha
      exact .inl hn
    · exact .inl hn

variable [Yaml MessageDest] {root : NodeID} {cfg : Kademlia.Config} {h : List RouterEvent}
  {e : RouterEvent}

-- More than 10 requests to the node are unanswered.
def Unresponsive (h : List RouterEvent) (node : NodeID) : Prop :=
  ∃ ids : List U256, ids.Nodup ∧ 10 < ids.length ∧ ∀ id ∈ ids, Unanswered h id node

-- What is in flight is unanswered, and the last step has blacklisted unresponsive nodes only.
structure Justified (root : NodeID) (cfg : Kademlia.Config) (h : List RouterEvent) (m : Messages) :
    Prop where
  inFlight    : ∀ id node, m.requestsInFlight.lookup id = some node → Unanswered h id node
  blacklisted : ∀ e h' m', h = e :: h' → Runs root cfg h' m' → ∀ node ∈ m.blacklistedNodes,
    node ∉ m'.blacklistedNodes → Unresponsive h' node
  responsive  : ∀ e h' m', h = e :: h' → Runs root cfg h' m' → ∀ node ∈ m.blacklistedNodes,
    (∀ id, ¬ Unanswered h' id node) → node ∈ m'.blacklistedNodes

theorem Unresponsive.exists_unanswered (hu : Unresponsive h node) : ∃ id, Unanswered h id node := by
  obtain ⟨ids, _, hl, hi⟩ := hu
  have ⟨id, hm⟩ := List.exists_mem_of_length_pos <| Nat.zero_lt_of_lt hl
  exact ⟨id, hi id hm⟩

theorem unresponsive_of_count
    (hf : ∀ id node, m.requestsInFlight.lookup id = some node → Unanswered h id node)
    (hc : 10 < m.requestsInFlight.values.count node) : Unresponsive h node := by
  refine ⟨m.requestsInFlight.keysOf node, HashMap.nodup_keysOf .., ?_, fun id hm => ?_⟩
  · rwa [HashMap.length_keysOf]
  · exact hf id node <| HashMap.mem_keysOf.mp hm

theorem Runs.justified (hr : Runs root cfg h m)
    (hs : ∀ e h' m', e :: h' <:+ h → Runs root cfg h' m' →
      ∀ id ∈ m'.requestsInFlight, ¬ e.input.Answers id) : Justified root cfg h m := by
  induction hr
  case new =>
    refine ⟨fun id node hl => ?_, fun _ _ _ he => ?_, fun _ _ _ he => ?_⟩
    · cases hl
    · cases he
    · cases he
  case step h m m' env input out hr _ hm hi =>
    have hj := hi fun e h' m' hs' => hs e h' m' <| hs'.trans <| List.suffix_cons ⟨env, input, out⟩ h
    have hblack {h' : List RouterEvent} {m₁ : Messages} {e : RouterEvent}
        (he : ⟨env, input, out⟩ :: h = e :: h') (hr' : Runs root cfg h' m₁) {node : NodeID}
        (hn : node ∈ m'.blacklistedNodes) : node ∈ m₁.blacklistedNodes ∨ Unresponsive h' node := by
      cases he
      cases hr.unique hr'
      exact (blacklisted_of_message hm hn).imp_right <| unresponsive_of_count hj.inFlight
    refine ⟨fun id node hl => ?_, fun e h' m₁ he hr' node hn hn' => ?_,
      fun e h' m₁ he hr' node hn hu => ?_⟩
    · rcases lookup_of_message hm hl with hl | hf
      · refine (hj.inFlight id node hl).step <| hs _ h m List.suffix_rfl hr id ?_
        exact HashMap.mem_iff_lookup.mpr ⟨node, hl⟩
      · exact hf.unanswered
    · exact (hblack he hr' hn).resolve_left hn'
    · refine (hblack he hr' hn).resolve_right fun hur => ?_
      have ⟨id, hi⟩ := hur.exists_unanswered
      exact hu id hi

omit [Yaml MessageDest] in
theorem Runs.of_suffix {h' : List RouterEvent} (hr : Runs root cfg h m) (hs : h' <:+ h) :
    ∃ m', Runs root cfg h' m' := by
  induction hr
  case new => cases List.suffix_nil.mp hs; exact ⟨_, .new⟩
  case step hr he hm hi =>
    rcases List.suffix_cons_iff.mp hs with rfl | hs
    · exact ⟨_, .step hr he hm⟩
    · exact hi hs

-- Blacklisting is justified in all states of a run if and only if no reply to a request comes by
-- which is in flight.
theorem justified_iff (hr : Runs root cfg h m) :
    (∀ h' m', h' <:+ h → Runs root cfg h' m' → Justified root cfg h' m') ↔
      ∀ e h' m', e :: h' <:+ h → Runs root cfg h' m' →
        ∀ id ∈ m'.requestsInFlight, ¬ e.input.Answers id := by
  constructor
  case mpr =>
    intro hs h' m' hsuf hr'
    exact hr'.justified fun e h'' m'' hs' => hs e h'' m'' (hs'.trans hsuf)
  case mp =>
    intro hj e h' m' hsuf hr' id hid ha
    have ⟨m'', hr''⟩ := hr.of_suffix hsuf
    have hj := hj _ _ hsuf hr''
    cases hr''
    case step _ hr'' hm =>
      cases hr'.unique hr''
      have ⟨node, hl⟩ := HashMap.mem_iff_lookup.mp hid
      rw [← requestsInFlight_of_answers ha hm] at hl
      exact not_unanswered ha <| hj.inFlight id node hl

end Messages

end DHTRouter

namespace DHTRouter.Messages

-- The value for the first request.
abbrev replied : Yaml MessageDest where
  toString _ := some "reply"
  fromStr _  := some <| .floValue (Flo.sample .zero 0 5, []) (some .zero)

attribute [local instance] tally tallied replied

def reply : InternIn :=
  .network <| .networkWrapperFromNetwork crowded ⟨dhtRouterName, "reply"⟩

theorem reply_answers : reply.Answers .zero :=
  .network rfl ⟨(Flo.sample .zero 0 5, []), rfl⟩

theorem requests_not_answers {id : U256} : ¬ (requests 0).Answers id := by
  rintro ⟨hd, _⟩
  cases hd

-- As long as no reply comes by, the request is in flight.
theorem justified_iff_request : ∃ h m, Runs .zero {} h m ∧
    h.map RouterEvent.input = [requests 0, joins] ∧ m.requestsInFlight.values = [crowded] ∧
    ∀ h' m', h' <:+ h → Runs .zero {} h' m' → Justified .zero {} h' m' := by
  have hp : (replay suspiciousEnv [joins, requests 0] ([], lone)).any fun (_, m) =>
      m.requestsInFlight.values == [crowded] := by
    decide +kernel
  have ⟨⟨h, m⟩, hp, hv⟩ := Option.any_eq_true _ _ |>.mp hp
  have ⟨hr, hi⟩ := Runs.new.replay rfl hp
  refine ⟨h, m, hr, hi, beq_iff_eq.mp hv, justified_iff hr |>.mpr ?_⟩
  intro e h' m' hs _ id _ ha
  have hm : e.input ∈ h.map RouterEvent.input := List.mem_map_of_mem <| hs.subset List.mem_cons_self
  rw [hi] at hm
  rcases List.mem_cons.mp hm with he | hm
  · exact requests_not_answers (he ▸ ha)
  · rw [List.mem_singleton.mp hm] at ha
    cases ha

-- The request stays in flight after its reply has arrived.
theorem reply_not_justified : ∃ h m, Runs .zero {} h m ∧
    h.map RouterEvent.input = [reply, requests 0, joins] ∧ m.requestsInFlight.values = [crowded] ∧
    ¬ Justified .zero {} h m := by
  have hp : (replay suspiciousEnv [joins, requests 0, reply] ([], lone)).any fun (_, m) =>
      m.requestsInFlight.values == [crowded] && m.requestsInFlight.lookup .zero == some crowded := by
    decide +kernel
  have ⟨⟨h, m⟩, hp, hv⟩ := Option.any_eq_true _ _ |>.mp hp
  have ⟨hr, hi⟩ := Runs.new.replay rfl hp
  simp only [Bool.and_eq_true, beq_iff_eq] at hv
  refine ⟨h, m, hr, hi, hv.left, fun hj => ?_⟩
  obtain ⟨e, h, rfl, he, _⟩ := List.map_eq_cons_iff.mp hi
  exact not_unanswered (he ▸ reply_answers) <| hj.inFlight _ _ hv.right

end DHTRouter.Messages
