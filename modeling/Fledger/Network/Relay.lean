import Fledger.Network.Challenge

namespace SignalEvent

-- The connection on which a node joined, and its id.
def announced (e : SignalEvent) : Option (Nat × U256) :=
  match e.input with
  | .wsServer (.message i _) =>
    (e.out.findSome? fun | .newNode id => some id | _ => none).map (i, ·)
  | _                        => none

-- The message for another node, and the connection on which it arrived.
def peerSetup? [SignalJson] (e : SignalEvent) : Option (Nat × PeerInfo) :=
  match e.input with
  | .wsServer (.message i text) =>
    match WSSignalMessageFromNode.fromJson text with
    | some (some (.peerSetup pi)) => some (i, pi)
    | _                           => none
  | _                           => none

end SignalEvent

namespace SignalServer

-- The id which was announced last on the connection, since it was opened.
def announcedOn (i : Nat) : List SignalEvent → Option U256
  | []     => none
  | e :: h =>
    if e.input = .wsServer (.newConnection i) then none
    else
      match e.announced with
      | some (j, id) => if j = i then some id else announcedOn i h
      | none         => announcedOn i h

-- The connection on which the id was announced last.
def indexOf (id : U256) : List SignalEvent → Option Nat
  | []     => none
  | e :: h =>
    match e.announced with
    | some (j, id') => if id' = id then some j else indexOf id h
    | none          => indexOf id h

-- The challenge of a connection on which nothing was announced yet.
structure Pending (i : Nat) (id : U256) (h : List SignalEvent) : Prop where
  challenge : challengeOf i h = some id
  announced : announcedOn i h = none

section

variable [SignalJson] [Ed25519Compact]

-- What arrives on a connection is forwarded only from the id which was announced on it to the other
-- endpoint, where this one was announced last.
structure Relays (h : List SignalEvent) (e : SignalEvent) : Prop where
  forwards : ∀ i pi j text, e.peerSetup? = some (i, pi) → .wsServer (.message j text) ∈ e.out →
    SignalJson.toString (.peerSetup pi) = some text ∧
    ∃ id dst, announcedOn i h = some id ∧ pi.getRemote id = some dst ∧
      announcedOn j h = some dst ∧ indexOf dst h = some j
  others   : e.peerSetup? = none → ∀ j text, .wsServer (.message j text) ∈ e.out →
    ∃ msg, SignalJson.toString msg = some text ∧ ∀ pi, msg ≠ .peerSetup pi

-- One of the endpoints is a challenge.
def Exposes (h : List SignalEvent) (s : SignalServer) (input : SignalIn) : Prop :=
  ∃ i text pi id dst j, input = .wsServer (.message i text) ∧ s.Forwards i text pi id dst j ∧
    (Pending i id h ∨ Pending j dst h)

variable {config : SignalConfig} {allowed : List SignalEvent → SignalServer → SignalIn → Prop}
  {h : List SignalEvent} {s s' : SignalServer} {e : SignalEvent} {env : SignalEnv}
  {input : SignalIn} {out : List SignalOut} {i index : Nat} {id : U256}

-- A connection has its challenge first, and then the id which was announced on it, and nowhere else
-- since.
structure Phases (h : List SignalEvent) (s : SignalServer) : Prop where
  entries : ∀ {i id}, s.entry i = some id →
    (announcedOn i h = some id ∧ indexOf id h = some i) ∨ Pending i id h

section

omit [SignalJson] [Ed25519Compact]

-- Nothing is opened or announced by the event.
theorem Phases.cons (hp : Phases h s) (he : ∀ {i id}, s'.entry i = some id → s.entry i = some id)
    (hc : ∀ i, e.input ≠ .wsServer (.newConnection i)) (ha : e.announced = none) :
    Phases (e :: h) s' := by
  constructor
  intro i id hi
  rcases hp.entries (he hi) with ⟨hon, hof⟩ | ⟨hch, hon⟩
  · exact .inl ⟨by simpa [announcedOn, hc, ha] using hon, by simpa [indexOf, ha] using hof⟩
  · exact .inr ⟨(challengeOf_cons (hc i)).trans hch, by simpa [announcedOn, hc, ha] using hon⟩

theorem Phases.accept (hp : Phases h s) (hc : e.input = .wsServer (.newConnection index)) :
    Phases (e :: h) (s.accept index e.env.rnd) := by
  have ha : e.announced = none := by simp [SignalEvent.announced, hc]
  constructor
  intro i id hi
  rcases entry_accept.mp hi with ⟨rfl, rfl⟩ | ⟨hi, _, hx⟩
  · exact .inr ⟨by simp [challengeOf, hc], by simp [announcedOn, hc]⟩
  · have hn : e.input ≠ .wsServer (.newConnection i) := by simpa [hc] using Ne.symm hx
    rcases hp.entries hi with ⟨hon, hof⟩ | ⟨hch, hon⟩
    · exact .inl ⟨by simpa [announcedOn, hn, ha] using hon, by simpa [indexOf, ha] using hof⟩
    · exact .inr ⟨(challengeOf_cons hn).trans hch, by simpa [announcedOn, hn, ha] using hon⟩

theorem Phases.register {info : NodeInfo} (hp : Phases h s)
    (hc : ∀ i, e.input ≠ .wsServer (.newConnection i)) (ha : e.announced = some (index, id)) :
    Phases (e :: h) (s.register index id info) := by
  constructor
  intro i id' hi
  rcases entry_register.mp hi with ⟨rfl, rfl⟩ | ⟨hi, hid, hx⟩
  · exact .inl ⟨by simp [announcedOn, hc, ha], by simp [indexOf, ha]⟩
  · have hon : announcedOn i (e :: h) = announcedOn i h := by
      simp [announcedOn, hc, ha, Ne.symm hx]
    have hof : indexOf id' (e :: h) = indexOf id' h := by simp [indexOf, ha, Ne.symm hid]
    rcases hp.entries hi with h' | ⟨hch, h'⟩
    · exact .inl (hon ▸ hof ▸ h')
    · exact .inr ⟨(challengeOf_cons (hc i)).trans hch, hon ▸ h'⟩

end

theorem Phases.step (hp : Phases h s) (hs : Handles s s' env input out) :
    Phases (⟨env, input, out⟩ :: h) s' := by
  cases hs
  case ticks hi hs ho =>
    subst hi ho
    exact hp.cons (entry_of_msgInTimer hs) (by simp) rfl
  case removes index hi hs ho =>
    subst hi hs ho
    exact hp.cons entry_of_removeNode (by simp) rfl
  case connects index reply hi _ hs ho =>
    subst hi hs ho
    exact hp.accept (e := ⟨env, _, _⟩) rfl
  case registers index text ann challenge id reply hi _ _ hs ho =>
    subst hi hs ho
    have hr : Phases h (s.refresh index) := ⟨hp.entries⟩
    exact hr.register message_ne_newConnection rfl
  case forwards index text pi id dst dstIndex reply hi _ _ hs ho =>
    subst hi hs ho
    exact hp.cons (fun he => he) message_ne_newConnection rfl
  case lists index text hi _ hr hs =>
    have ⟨_, _, ho⟩ := sendMsgNode_eq_some.mp hr
    subst hi hs ho
    exact hp.cons (fun he => he) message_ne_newConnection rfl
  case refreshes index text hi _ _ hs ho =>
    subst hi hs
    rcases ho with rfl | ⟨_, rfl⟩
    all_goals exact hp.cons (fun he => he) message_ne_newConnection rfl
  case passes hi hs ho =>
    subst hs
    rcases hi with rfl | rfl
    all_goals exact hp.cons (fun he => he) (fun _ hi => by cases hi) rfl

theorem phases_of_runs (hr : Runs config allowed h s) : Phases h s := by
  induction hr
  case new              => exact ⟨fun he => by cases he⟩
  case step hr _ hm hi => exact hi.step (handles_of_msgIn hm)

omit [Ed25519Compact] in
-- The event is no message for another node, and is answered by other messages only.
theorem Relays.of_others (hs : e.peerSetup? = none) (ho : ∀ j text,
    .wsServer (.message j text) ∈ e.out →
      ∃ msg, SignalJson.toString msg = some text ∧ ∀ pi, msg ≠ .peerSetup pi) : Relays h e where
  forwards _ _ _ _ hp := by cases hs.symm.trans hp
  others _            := ho

omit [Ed25519Compact] in
-- The event is not answered by any message to a node.
theorem Relays.of_silent (ho : ∀ j text, .wsServer (.message j text) ∉ e.out) : Relays h e where
  forwards _ _ j text _ hm := absurd hm (ho j text)
  others _ j text hm       := absurd hm (ho j text)

omit [Ed25519Compact] in
theorem Relays.of_forwards {text : String} {pi : PeerInfo} {dst : U256} {j : Nat} {reply : String}
    (hp : Phases h s) (hf : s.Forwards i text pi id dst j)
    (hw : SignalJson.toString (.peerSetup pi) = some reply) (hi : ¬ Pending i id h)
    (hj : ¬ Pending j dst h) :
    Relays h ⟨env, .wsServer (.message i text), [.wsServer (.message j reply)]⟩ := by
  have hsetup : SignalEvent.peerSetup? ⟨env, .wsServer (.message i text),
      [.wsServer (.message j reply)]⟩ = some (i, pi) := by
    simp [SignalEvent.peerSetup?, hf.json]
  constructor
  case others => intro hn; cases hn.symm.trans hsetup
  case forwards =>
    intro i' pi' j' text' hs hm
    cases hsetup.symm.trans hs
    cases List.mem_singleton.mp hm
    have ⟨honi, _⟩    := (hp.entries hf.entry).resolve_right hi
    have ⟨honj, hofj⟩ := (hp.entries hf.dst).resolve_right hj
    exact ⟨hw, id, dst, honi, hf.remote, honj, hofj⟩

theorem relays_of_not_exposes (hp : Phases h s) (hs : Handles s s' env input out)
    (hx : ¬ Exposes h s input) : Relays h ⟨env, input, out⟩ := by
  cases hs
  case ticks hi hs ho =>
    subst ho
    exact .of_silent fun _ _ => List.not_mem_nil
  case removes hi hs ho =>
    subst ho
    exact .of_silent fun _ _ => List.not_mem_nil
  case connects index reply hi hw hs ho =>
    subst hi ho
    refine .of_others rfl fun j text hm => ?_
    cases List.mem_singleton.mp hm
    exact ⟨_, hw, fun _ hp => by cases hp⟩
  case registers index text ann challenge id reply hi hr hw hs ho =>
    subst hi ho
    refine .of_others (by simp [SignalEvent.peerSetup?, hr.json]) fun j text hm => ?_
    have he : SignalOut.wsServer (.message j text) = .wsServer (.message index reply) := by
      simpa using hm
    cases he
    exact ⟨_, hw, fun _ hp => by cases hp⟩
  case forwards i text pi id dst j reply hi hf hw hs ho =>
    subst hi ho
    apply Relays.of_forwards hp hf hw
    · exact fun hpend => hx ⟨i, text, pi, id, dst, j, rfl, hf, .inl hpend⟩
    · exact fun hpend => hx ⟨i, text, pi, id, dst, j, rfl, hf, .inr hpend⟩
  case lists index text hi hj hr hs =>
    have ⟨reply, hw, ho⟩ := sendMsgNode_eq_some.mp hr
    subst hi ho
    refine .of_others (by simp [SignalEvent.peerSetup?, hj]) fun j text hm => ?_
    cases List.mem_singleton.mp hm
    exact ⟨_, hw, fun _ hp => by cases hp⟩
  case refreshes index text hi _ _ hs ho =>
    refine .of_silent fun _ _ => ?_
    rcases ho with rfl | ⟨_, rfl⟩ <;> simp
  case passes hi hs ho =>
    refine .of_silent fun _ _ => ?_
    rcases ho with rfl | rfl <;> simp

theorem not_exposes_of_relays (hs : Handles s s' env input out)
    (hr : Relays h ⟨env, input, out⟩) : ¬ Exposes h s input := by
  intro ⟨i, text, pi, id, dst, j, hi, hf, hp⟩
  cases hs
  case ticks hi' _ _              => cases hi.symm.trans hi'
  case removes hi' _ _            => cases hi.symm.trans hi'
  case connects hi' _ _ _         => cases hi.symm.trans hi'
  case registers hi' hr _ _ _     => cases hi.symm.trans hi'; cases hf.json.symm.trans hr.json
  case lists hi' hj _ _           => cases hi.symm.trans hi'; cases hf.json.symm.trans hj
  case refreshes hi' _ hn _ _     => cases hi.symm.trans hi'; exact hn _ _ _ _ hf
  case passes hi' _ _             => rcases hi' with hi' | hi' <;> cases hi.symm.trans hi'
  case forwards reply hi' hf' hw _ ho =>
    cases hi.symm.trans hi'
    cases hf.json.symm.trans hf'.json
    cases hf.entry.symm.trans hf'.entry
    cases hf.remote.symm.trans hf'.remote
    cases (getByLeft_eq_some.mpr hf.dst).symm.trans (getByLeft_eq_some.mpr hf'.dst)
    have hsetup : SignalEvent.peerSetup? ⟨env, input, out⟩ = some (i, pi) := by
      simp [SignalEvent.peerSetup?, hi, hf.json]
    have ⟨_, id', dst', hon, _, honj, _⟩ := hr.forwards i pi j reply hsetup (by simp [ho])
    rcases hp with hp | hp
    · cases hp.announced.symm.trans hon
    · cases hp.announced.symm.trans honj

-- All messages are relayed correctly in a run if and only if none of them has a challenge as one of
-- its endpoints.
theorem relays_iff (hr : Runs config allowed h s) :
    (∀ e h', e :: h' <:+ h → Relays h' e) ↔
      ∀ e h' s', e :: h' <:+ h → Runs config allowed h' s' → ¬ Exposes h' s' e.input := by
  constructor
  case mp =>
    intro hall e h' s' hs hr'
    have ⟨_, _, _, hm⟩ := hr.step_of_suffix hs hr'
    exact not_exposes_of_relays (handles_of_msgIn hm) (hall e h' hs)
  case mpr =>
    intro hx e h' hs
    have ⟨s', hr'⟩ := hr.of_suffix <| (List.suffix_cons e h').trans hs
    have ⟨_, _, _, hm⟩ := hr.step_of_suffix hs hr'
    exact relays_of_not_exposes (phases_of_runs hr') (handles_of_msgIn hm) (hx e h' s' hs hr')

end

-- The run on the inputs, of which the last one is the first of the list.
def replay [SignalJson] [Ed25519Compact] (config : SignalConfig) :
    List (SignalEnv × SignalIn) → List SignalEvent × SignalServer
  | []                   => ([], new config)
  | (env, input) :: rest =>
    let (h, s) := replay config rest
    let (s', out) := (s.msgIn env input).getD (s, [])
    (⟨env, input, out⟩ :: h, s')

section

variable [SignalJson] [Ed25519Compact] {config : SignalConfig}
  {allowed : List SignalEvent → SignalServer → SignalIn → Prop} {env : SignalEnv}
  {input : SignalIn} {rest : List (SignalEnv × SignalIn)} {h : List SignalEvent} {s : SignalServer}

theorem replay_cons : (replay config ((env, input) :: rest)).1 =
    ⟨env, input, (((replay config rest).2.msgIn env input).getD ((replay config rest).2, [])).2⟩ ::
      (replay config rest).1 :=
  rfl

theorem Runs.replay_cons (hr : Runs config allowed (replay config rest).1 (replay config rest).2)
    (ha : allowed (replay config rest).1 (replay config rest).2 input)
    (hm : ((replay config rest).2.msgIn env input).isSome) :
    Runs config allowed (replay config ((env, input) :: rest)).1
      (replay config ((env, input) :: rest)).2 := by
  have ⟨next, hn⟩ := Option.isSome_iff_exists.mp hm
  have he : replay config ((env, input) :: rest) =
      (⟨env, input, next.2⟩ :: (replay config rest).1, next.1) := by
    simp only [replay, hn, Option.getD_some]
  rw [he]
  exact .step hr ha hn

omit [Ed25519Compact] in
theorem not_exposes_of_peerSetup? (env : SignalEnv) (out : List SignalOut)
    (hn : SignalEvent.peerSetup? ⟨env, input, out⟩ = none) : ¬ Exposes h s input := by
  intro ⟨_, _, _, _, _, _, hi, hf, _⟩
  simp [SignalEvent.peerSetup?, hi, hf.json] at hn

omit [Ed25519Compact] in
theorem not_exposes_of_announced
    (ha : ∀ pair ∈ s.connectionIds.pairs, announcedOn pair.2 h ≠ none) : ¬ Exposes h s input := by
  intro ⟨_, _, _, _, _, _, _, hf, hp⟩
  rcases hp with hp | hp
  · exact ha _ (BiMap.getByRight_eq_some.mp hf.entry) hp.announced
  · exact ha _ (BiMap.getByRight_eq_some.mp hf.dst) hp.announced

end

section Concrete

def otherEnv : SignalEnv :=
  { sampleEnv with rnd := .ofPrefix [4] }

def announceLeft : MessageAnnounce NodeInfoV3 :=
  sampleAnnounce "left" (.ofPrefix [1]) sampleEnv.rnd

def announceRight : MessageAnnounce NodeInfoV3 :=
  sampleAnnounce "right" (.ofPrefix [2]) otherEnv.rnd

-- Between the two nodes, and between the challenges of their connections.
def setupNodes : PeerInfo where
  idInit   := .ofPrefix [2]
  idFollow := .ofPrefix [1]
  message  := .init

def setupChallenges : PeerInfo where
  idInit   := otherEnv.rnd
  idFollow := sampleEnv.rnd
  message  := .init

abbrev relaying : SignalJson :=
  .relaying [announceLeft, announceRight] [setupNodes, setupChallenges]

attribute [local instance] relaying Ed25519Compact.plain

def twoConnections : List (SignalEnv × SignalIn) :=
  [(otherEnv, .wsServer (.newConnection 1)), (sampleEnv, .wsServer (.newConnection 0))]

def twoNodes : List (SignalEnv × SignalIn) :=
  (sampleEnv, .wsServer (.message 1 (Json.announce announceRight))) ::
    (sampleEnv, .wsServer (.message 0 (Json.announce announceLeft))) :: twoConnections

def relayed : List (SignalEnv × SignalIn) :=
  (sampleEnv, .wsServer (.message 1 (Json.peerSetup setupNodes))) :: twoNodes

def exposed : List (SignalEnv × SignalIn) :=
  (sampleEnv, .wsServer (.message 1 (Json.peerSetup setupChallenges))) :: twoConnections

theorem runs_twoConnections {allowed : List SignalEvent → SignalServer → SignalIn → Prop}
    (ha : ∀ h s index, allowed h s (.wsServer (.newConnection index))) :
    Runs sampleConfig allowed (replay sampleConfig twoConnections).1
      (replay sampleConfig twoConnections).2 :=
  .replay_cons (.replay_cons .new (ha ..) (by decide +kernel)) (ha ..)
    (by decide +kernel)

theorem runs_relayed : Runs sampleConfig (fun h s input => ¬ Exposes h s input)
    (replay sampleConfig relayed).1 (replay sampleConfig relayed).2 := by
  have hconn : Runs sampleConfig (fun h s input => ¬ Exposes h s input)
      (replay sampleConfig twoConnections).1 (replay sampleConfig twoConnections).2 :=
    runs_twoConnections fun _ _ _ => not_exposes_of_peerSetup? sampleEnv [] rfl
  have hnodes : Runs sampleConfig (fun h s input => ¬ Exposes h s input)
      (replay sampleConfig twoNodes).1 (replay sampleConfig twoNodes).2 := by
    refine .replay_cons (.replay_cons hconn ?_ (by decide +kernel)) ?_ (by decide +kernel)
    all_goals exact not_exposes_of_peerSetup? sampleEnv [] (by decide +kernel)
  exact .replay_cons hnodes (not_exposes_of_announced (by decide +kernel)) (by decide +kernel)

theorem relays_iff_relayed :
    (replay sampleConfig relayed).1.head?.map SignalEvent.out =
      some [.wsServer (.message 0 (Json.peerSetup setupNodes))] ∧
    ∀ e h', e :: h' <:+ (replay sampleConfig relayed).1 → Relays h' e := by
  refine ⟨by decide +kernel, relays_iff runs_relayed |>.mpr ?_⟩
  intro e h' s' hs hr'
  have ⟨_, _, hx, _⟩ := runs_relayed.step_of_suffix hs hr'
  exact hx

-- A message is forwarded between two connections on which nothing was announced.
theorem exposed_not_relays :
    Runs sampleConfig (fun _ _ _ => True) (replay sampleConfig exposed).1
      (replay sampleConfig exposed).2 ∧
    ¬ ∀ e h', e :: h' <:+ (replay sampleConfig exposed).1 → Relays h' e := by
  constructor
  case left =>
    exact .replay_cons (runs_twoConnections fun _ _ _ => trivial) trivial (by decide +kernel)
  case right =>
    intro hall
    rw [exposed, replay_cons] at hall
    have hr := hall _ _ List.suffix_rfl
    have ⟨_, id, _, hon, _⟩ := hr.forwards 1 setupChallenges 0 (Json.peerSetup setupChallenges)
      (by decide +kernel) (by decide +kernel)
    have hn : announcedOn 1 (replay sampleConfig twoConnections).1 = none := by decide +kernel
    cases hn.symm.trans hon

end Concrete

end SignalServer
