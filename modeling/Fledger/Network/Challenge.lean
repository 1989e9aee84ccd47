import Fledger.Network.Concrete
import Fledger.Network.Handlers

section

variable [SignalJson] [Ed25519Compact]

-- The announcement which the input brings on the connection.
def SignalIn.announce? (i : Nat) : SignalIn → Option (MessageAnnounce NodeInfo)
  | .wsServer (.message index text) =>
    match WSSignalMessageFromNode.fromJson text with
    | some (some (.announce ann)) => if index = i then some ann else none
    | _                           => none
  | _                               => none

-- The signature of the announcement is one of the challenge, by the key which is the id.
def MessageAnnounce.proves (ann : MessageAnnounce NodeInfo) (id challenge : U256) : Bool :=
  ann.nodeInfo.pubkey = id.bytes && ann.nodeInfo.verify challenge.bytes ann.signature = some true

structure SignalEvent where
  env   : SignalEnv
  input : SignalIn
  out   : List SignalOut

namespace SignalServer

-- The challenge which was sent on the connection when it was opened.
def challengeOf (i : Nat) : List SignalEvent → Option U256
  | []     => none
  | e :: h => if e.input = .wsServer (.newConnection i) then some e.env.rnd else challengeOf i h

-- Since the connection was opened, the id was announced on it with a signature of the challenge.
def registered (i : Nat) (id : U256) : List SignalEvent → Bool
  | []     => false
  | e :: h =>
    e.input ≠ .wsServer (.newConnection i) &&
      (registered i id h ||
        match e.input.announce? i, challengeOf i h with
        | some ann, some challenge => ann.proves id challenge
        | _, _                     => false)

-- All runs from the empty server, with the events from the last one to the first one.
inductive Runs (config : SignalConfig)
    (allowed : List SignalEvent → SignalServer → SignalIn → Prop) :
    List SignalEvent → SignalServer → Prop
  | new : Runs config allowed [] (.new config)
  | step {h : List SignalEvent} {s s' : SignalServer} {env : SignalEnv} {input : SignalIn}
    {out : List SignalOut} :
    Runs config allowed h s → allowed h s input → s.msgIn env input = some (s', out) →
    Runs config allowed (⟨env, input, out⟩ :: h) s'

section

variable {config : SignalConfig} {allowed : List SignalEvent → SignalServer → SignalIn → Prop}
  {h h' : List SignalEvent} {s s' : SignalServer} {e : SignalEvent}

theorem Runs.unique (hr : Runs config allowed h s) (hr' : Runs config allowed h s') : s = s' := by
  induction hr generalizing s'
  case new =>
    cases hr'
    rfl
  case step _ _ hm hi =>
    cases hr'
    case step hr' _ hm' =>
      cases hi hr'
      cases hm.symm.trans hm'
      rfl

theorem Runs.of_suffix (hr : Runs config allowed h s) (hs : h' <:+ h) :
    ∃ s', Runs config allowed h' s' := by
  induction hr
  case new =>
    cases List.suffix_nil.mp hs
    exact ⟨_, .new⟩
  case step hr ha hm hi =>
    rcases List.suffix_cons_iff.mp hs with rfl | hs
    · exact ⟨_, .step hr ha hm⟩
    · exact hi hs

-- The step which the event of a run stands for.
theorem Runs.step_of_suffix (hr : Runs config allowed h s) (hs : e :: h' <:+ h)
    (hr' : Runs config allowed h' s') : ∃ s'', Runs config allowed (e :: h') s'' ∧
      allowed h' s' e.input ∧ s'.msgIn e.env e.input = some (s'', e.out) := by
  have ⟨s'', hr''⟩ := hr.of_suffix hs
  refine ⟨s'', hr'', ?_⟩
  cases hr''
  case step hr'' ha hm =>
    cases hr'.unique hr''
    exact ⟨ha, hm⟩

end

-- What the handlers do to the entries of the connections, and which nodes they report.
inductive Effect (s s' : SignalServer) (env : SignalEnv) (input : SignalIn) (out : List SignalOut) :
    Prop
  | connects (index : Nat) (text : String)
    (input : input = .wsServer (.newConnection index))
    (entries : s'.connectionIds = s.connectionIds.insert env.rnd index)
    (challenge : SignalJson.toString (.challenge signalVersion env.rnd) = some text)
    (out : out = [.wsServer (.message index text)])
  | registers (index : Nat) (ann : MessageAnnounce NodeInfo) (challenge id : U256)
    (input : input.announce? index = some ann)
    (entry : s.entry index = some challenge)
    (proves : ann.proves id challenge)
    (entries : s'.connectionIds = s.connectionIds.insert id index)
    (out : ∀ id', .newNode id' ∈ out → id' = id)
  | quiet
    (input : ∀ index, input ≠ .wsServer (.newConnection index))
    (entries : ∀ i id, s'.entry i = some id → s.entry i = some id)
    (out : ∀ id, .newNode id ∉ out)

section

variable {s s' : SignalServer} {env : SignalEnv} {input : SignalIn} {out : List SignalOut}
  {index i : Nat} {id : U256} {text : String} {ann : MessageAnnounce NodeInfo}

omit [SignalJson] [Ed25519Compact] in
theorem entry_of_removeNode (h : (s.removeNode index).entry i = some id) : s.entry i = some id :=
  (BiMap.getByRight_of_removeByRight h).right

omit [SignalJson] [Ed25519Compact] in
theorem entry_of_foldl_removeNode (indices : List Nat)
    (h : (indices.foldl removeNode s).entry i = some id) : s.entry i = some id := by
  induction indices generalizing s
  case nil                => exact h
  case cons index rest hi => exact entry_of_removeNode (hi h)

omit [SignalJson] [Ed25519Compact] in
theorem entry_of_msgInTimer (h : s.msgInTimer = some s') (he : s'.entry i = some id) :
    s.entry i = some id := by
  unfold msgInTimer at h
  split at h <;> cases h
  have hs := entry_of_foldl_removeNode _ he
  exact hs

omit [Ed25519Compact] in
-- What is read of an announcement.
theorem fromStr_of_fromJson
    (h : WSSignalMessageFromNode.fromJson text = some (some (.announce ann))) :
    ∃ ann', SignalJson.fromStr text = some (.announce ann') ∧
      NodeInfo.fromVersion ann'.nodeInfo = some ann.nodeInfo := by
  simp only [WSSignalMessageFromNode.fromJson, Option.bind_eq_bind, Option.bind_eq_some_iff] at h
  obtain ⟨_, _, h⟩ := h
  cases hm : SignalJson.fromStr text <;> simp [hm] at h
  case some msg =>
    cases msg <;> simp [WSSignalMessageFromNode.convert, Option.bind_eq_some_iff] at h
    case announce ann =>
      obtain ⟨info, hi, rfl⟩ := h
      exact ⟨ann, rfl, hi⟩

theorem Effect.ignored (hi : ∀ j, input ≠ .wsServer (.newConnection j))
    (he : ∀ i id, s'.entry i = some id → s.entry i = some id) : Effect s s' env input [] :=
  .quiet hi he fun _ => List.not_mem_nil

omit [SignalJson] [Ed25519Compact] in
theorem message_ne_newConnection (j : Nat) :
    SignalIn.wsServer (.message index text) ≠ .wsServer (.newConnection j) := by
  intro h
  cases h

theorem effect_of_registers {challenge : U256} {reply : String}
    (h : s.Registers index text ann challenge id)
    (hs : s' = (s.refresh index).register index id ann.nodeInfo)
    (ho : out = [.wsServer (.message index reply), .newNode id]) :
    Effect s s' env (.wsServer (.message index text)) out := by
  have ⟨_, _, hver⟩ := fromStr_of_fromJson h.json
  refine .registers index ann challenge id ?_ h.entry ?_ (by rw [hs]; rfl) ?_
  · simp [SignalIn.announce?, h.json]
  · simp [MessageAnnounce.proves, NodeInfo.getId_of_fromVersion hver h.getId, h.verified]
  · intro id' hn
    simpa [ho] using hn

theorem effect_of_msgIn (h : s.msgIn env input = some (s', out)) : Effect s s' env input out := by
  cases handles_of_msgIn h
  case ticks hi hs ho =>
    subst hi ho
    exact .ignored (fun _ hi => by cases hi) fun _ _ => entry_of_msgInTimer hs
  case removes index hi hs ho =>
    subst hi hs ho
    exact .ignored (fun _ hi => by cases hi) fun _ _ => entry_of_removeNode
  case connects index reply hi hw hs ho =>
    subst hs
    exact .connects index reply hi rfl hw ho
  case registers index text ann challenge id reply hi hr _ hs ho =>
    subst hi
    exact effect_of_registers hr hs ho
  case forwards index text pi id dst dstIndex reply hi _ _ hs ho =>
    subst hi hs ho
    exact .quiet message_ne_newConnection (fun _ _ he => he) (by simp)
  case lists index text hi _ hr hs =>
    have ⟨_, _, ho⟩ := sendMsgNode_eq_some.mp hr
    subst hi hs ho
    exact .quiet message_ne_newConnection (fun _ _ he => he) (by simp)
  case refreshes index text hi _ _ hs ho =>
    subst hi hs
    refine .quiet message_ne_newConnection (fun _ _ he => he) ?_
    rcases ho with rfl | ⟨_, rfl⟩ <;> simp
  case passes hi hs ho =>
    subst hs
    refine .quiet ?_ (fun _ _ he => he) ?_
    · rcases hi with rfl | rfl <;> simp
    · rcases ho with rfl | rfl <;> simp

end

-- A connection is registered once more, with a signature of the id which it had announced before.
def Reregisters (h : List SignalEvent) (s : SignalServer) (input : SignalIn) : Prop :=
  ∃ i ann id, input.announce? i = some ann ∧ s.entry i = some id ∧ challengeOf i h ≠ some id ∧
    registered i id h ∧ ann.nodeInfo.verify id.bytes ann.signature = some true

-- Each id of a connection is its challenge, or has been announced on it with a signature of the
-- challenge, by the key of the id. This holds for each node which joined, when it did.
structure Fresh (h : List SignalEvent) (s : SignalServer) : Prop where
  entries : ∀ {i id}, s.entry i = some id → challengeOf i h = some id ∨ registered i id h
  joined  : ∀ {e h' id}, e :: h' <:+ h → .newNode id ∈ e.out →
    ∃ i ann challenge, e.input.announce? i = some ann ∧ challengeOf i h' = some challenge ∧
      ann.proves id challenge
  sent    : ∀ {i challenge}, challengeOf i h = some challenge →
    ∃ e h' text, e :: h' <:+ h ∧ e.input = .wsServer (.newConnection i) ∧
      SignalJson.toString (.challenge signalVersion challenge) = some text ∧
      .wsServer (.message i text) ∈ e.out

section

variable {h : List SignalEvent} {s s' : SignalServer} {env : SignalEnv} {input : SignalIn}
  {out : List SignalOut} {e : SignalEvent} {i : Nat} {id : U256}

omit [SignalJson] [Ed25519Compact] in
theorem challengeOf_cons (hi : e.input ≠ .wsServer (.newConnection i)) :
    challengeOf i (e :: h) = challengeOf i h := by
  simp [challengeOf, hi]

theorem registered_cons (hi : e.input ≠ .wsServer (.newConnection i)) (hr : registered i id h) :
    registered i id (e :: h) := by
  simp [registered, hi, hr]

omit [Ed25519Compact] in
theorem ne_newConnection_of_announce {ann : MessageAnnounce NodeInfo}
    (ha : input.announce? i = some ann) (index : Nat) :
    input ≠ .wsServer (.newConnection index) := by
  intro hi
  simp [hi, SignalIn.announce?] at ha

-- What a connection is registered with is the challenge.
theorem Fresh.challengeOf_eq {ann : MessageAnnounce NodeInfo} {challenge : U256} (hf : Fresh h s)
    (hn : ¬Reregisters h s input) (ha : input.announce? i = some ann)
    (he : s.entry i = some challenge) (hp : ann.proves id challenge) :
    challengeOf i h = some challenge := by
  by_contra hc
  have hr := (hf.entries he).resolve_left hc
  exact hn ⟨i, ann, challenge, ha, he, hc, hr, by simp_all [MessageAnnounce.proves]⟩

theorem Fresh.entries_of_effect (hf : Fresh h s) (hn : ¬Reregisters h s input)
    (he : Effect s s' env input out) (hi : s'.entry i = some id) :
    challengeOf i (⟨env, input, out⟩ :: h) = some id ∨ registered i id (⟨env, input, out⟩ :: h) := by
  -- Where the entry is as before, and the connection is not opened again.
  have hold (hc : input ≠ .wsServer (.newConnection i)) (hi : s.entry i = some id) :
      challengeOf i (⟨env, input, out⟩ :: h) = some id ∨
        registered i id (⟨env, input, out⟩ :: h) :=
    (hf.entries hi).imp (challengeOf_cons hc).trans (registered_cons hc)
  cases he
  case quiet input entries _ => exact hold (input i) (entries i id hi)
  case connects index text input entries _ _ =>
    rw [entry, entries] at hi
    rcases BiMap.getByRight_of_insert hi with ⟨rfl, rfl⟩ | ⟨hne, hi⟩
    · exact .inl <| by simp [challengeOf, input]
    · exact hold (by simpa [input] using hne.symm) hi
  case registers index ann challenge id' input entry proves entries _ =>
    have hc := hf.challengeOf_eq hn input entry proves
    rw [SignalServer.entry, entries] at hi
    rcases BiMap.getByRight_of_insert hi with ⟨rfl, rfl⟩ | ⟨hne, hi⟩
    · refine .inr ?_
      simp [registered, ne_newConnection_of_announce input, input, hc, proves]
    · exact hold (ne_newConnection_of_announce input i) hi

theorem Fresh.joined_of_effect (hf : Fresh h s) (hn : ¬Reregisters h s input)
    (he : Effect s s' env input out) (hi : .newNode id ∈ out) :
    ∃ i ann challenge, input.announce? i = some ann ∧ challengeOf i h = some challenge ∧
      ann.proves id challenge := by
  cases he
  case quiet hq                  => exact absurd hi (hq id)
  case connects _ _ _ _ _ hq      => simp [hq] at hi
  case registers index ann challenge id' input entry proves _ hq =>
    cases hq id hi
    exact ⟨index, ann, challenge, input, hf.challengeOf_eq hn input entry proves, proves⟩

theorem Fresh.sent_of_effect {challenge : U256} (hf : Fresh h s) (he : Effect s s' env input out)
    (hi : challengeOf i (⟨env, input, out⟩ :: h) = some challenge) :
    ∃ e h' text, e :: h' <:+ ⟨env, input, out⟩ :: h ∧ e.input = .wsServer (.newConnection i) ∧
      SignalJson.toString (.challenge signalVersion challenge) = some text ∧
      .wsServer (.message i text) ∈ e.out := by
  by_cases hc : input = .wsServer (.newConnection i)
  case neg =>
    have ⟨e, h', text, hs, hrest⟩ := hf.sent ((challengeOf_cons hc).symm.trans hi)
    exact ⟨e, h', text, hs.trans (List.suffix_cons _ h), hrest⟩
  case pos =>
    simp only [challengeOf, hc, if_true, Option.some.injEq] at hi
    subst hi hc
    cases he
    case quiet hq _ _                            => exact absurd rfl (hq i)
    case registers hq _ _ _ _                    => exact absurd rfl (ne_newConnection_of_announce hq i)
    case connects index text input _ challenge _ =>
      cases input
      exact ⟨_, h, text, List.suffix_rfl, rfl, challenge, by simp_all⟩

theorem Fresh.step (hf : Fresh h s) (hn : ¬Reregisters h s input)
    (hm : s.msgIn env input = some (s', out)) : Fresh (⟨env, input, out⟩ :: h) s' where
  entries := hf.entries_of_effect hn (effect_of_msgIn hm)
  sent    := hf.sent_of_effect (effect_of_msgIn hm)
  joined hs hi := by
    rcases List.suffix_cons_iff.mp hs with he | hs
    · cases he
      exact hf.joined_of_effect hn (effect_of_msgIn hm) hi
    · exact hf.joined hs hi

-- Authentication is fresh in all runs in which no connection is registered once more.
theorem fresh_of_runs {config : SignalConfig}
    (hr : Runs config (fun h s input => ¬Reregisters h s input) h s) : Fresh h s := by
  induction hr
  case new =>
    exact ⟨by simp [entry, new, BiMap.empty, BiMap.getByRight], by simp, by simp [challengeOf]⟩
  case step hn hm hi => exact hi.step hn hm

end

end SignalServer

end

namespace SignalServer

-- Two nodes, of which the second one signs the id of the first one.
def announceFirst : MessageAnnounce NodeInfoV3 :=
  sampleAnnounce "first" (.ofPrefix [1]) sampleEnv.rnd

def announceSecond : MessageAnnounce NodeInfoV3 :=
  sampleAnnounce "second" (.ofPrefix [2]) (.ofPrefix [1])

abbrev announcements : SignalJson :=
  .announcing [announceFirst, announceSecond]

attribute [local instance] announcements Ed25519Compact.plain

def connect : SignalIn :=
  .wsServer (.newConnection 0)

def first : SignalIn :=
  .wsServer (.message 0 (Json.announce announceFirst))

def second : SignalIn :=
  .wsServer (.message 0 (Json.announce announceSecond))

def connected : SignalServer × List SignalOut :=
  (new sampleConfig).next connect

def joinedFirst : SignalServer × List SignalOut :=
  connected.1.next first

def joinedSecond : SignalServer × List SignalOut :=
  joinedFirst.1.next second

def connectedHistory : List SignalEvent :=
  [⟨sampleEnv, connect, connected.2⟩]

def firstHistory : List SignalEvent :=
  ⟨sampleEnv, first, joinedFirst.2⟩ :: connectedHistory

def secondHistory : List SignalEvent :=
  ⟨sampleEnv, second, joinedSecond.2⟩ :: firstHistory

variable {allowed : List SignalEvent → SignalServer → SignalIn → Prop}

theorem msgIn_connect :
    (new sampleConfig).msgIn sampleEnv connect = some (connected.1, connected.2) :=
  msgIn_next (by decide +kernel)

theorem msgIn_first : connected.1.msgIn sampleEnv first = some (joinedFirst.1, joinedFirst.2) :=
  msgIn_next (by decide +kernel)

theorem msgIn_second :
    joinedFirst.1.msgIn sampleEnv second = some (joinedSecond.1, joinedSecond.2) :=
  msgIn_next (by decide +kernel)

theorem runs_first (hc : allowed [] (new sampleConfig) connect)
    (hf : allowed connectedHistory connected.1 first) :
    Runs sampleConfig allowed firstHistory joinedFirst.1 :=
  .step (.step .new hc msgIn_connect) hf msgIn_first

theorem registered_connected (i : Nat) (id : U256) : registered i id connectedHistory = false := by
  simp [connectedHistory, connect, registered, SignalIn.announce?]

theorem not_reregisters_of_registered {h : List SignalEvent} {s : SignalServer} {input : SignalIn}
    (hr : ∀ i id, registered i id h = false) : ¬Reregisters h s input := by
  intro ⟨i, _, id, _, _, _, h, _⟩
  simp [hr i id] at h

theorem fresh_of_runs_first : joinedFirst.1.entry 0 = some (.ofPrefix [1]) ∧
    Fresh firstHistory joinedFirst.1 :=
  ⟨by decide +kernel, fresh_of_runs <| runs_first
    (not_reregisters_of_registered fun _ _ => rfl)
    (not_reregisters_of_registered registered_connected)⟩

-- The second node joins without a signature of the challenge.
theorem second_not_fresh :
    Runs sampleConfig (fun _ _ _ => True) secondHistory joinedSecond.1 ∧
      ¬Fresh secondHistory joinedSecond.1 := by
  refine ⟨.step (runs_first trivial trivial) trivial msgIn_second, fun hf => ?_⟩
  have he : joinedSecond.1.entry 0 = some (.ofPrefix [2]) := by decide +kernel
  rcases hf.entries he with hc | hr
  · exact absurd hc (by decide +kernel)
  · exact absurd hr (by decide +kernel)

end SignalServer
