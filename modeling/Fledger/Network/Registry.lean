import Fledger.Network.Challenge

-- What is chosen of a list is in the list.
def SignalEnv.Chooses (env : SignalEnv) : Prop :=
  ∀ seed infos count, env.chooseMultiple seed infos count ⊆ infos

namespace SignalServer

section

variable [SignalJson] [Ed25519Compact]

-- The connection was opened, and has not been closed since.
def isOpen (i : Nat) : List SignalEvent → Bool
  | []     => false
  | e :: h =>
    if e.input = .wsServer (.newConnection i) then true
    else if e.input = .wsServer (.disconnection i) then false
    else isOpen i h

-- Each index stands for one connection.
def OpensOnce (h : List SignalEvent) (_ : SignalServer) (input : SignalIn) : Prop :=
  ∀ i, input = .wsServer (.newConnection i) → challengeOf i h = none

-- The node is on a connection which is open and has time left.
structure Live (h : List SignalEvent) (s : SignalServer) (id : U256) (i : Nat) : Prop where
  mapped : s.connectionIds.getByLeft id = some i
  timed  : i ∈ s.ttl
  opened : isOpen i h

structure Consistent (config : SignalConfig) (h : List SignalEvent) (s : SignalServer) : Prop where
  info    : ∀ id ∈ s.info, ∃ i, Live h s id i
  entries : ∀ i id, s.connectionIds.getByRight i = some id → i ∈ s.ttl
  ttl     : ∀ i t, s.ttl.lookup i = some t → 1 ≤ t ∧ t ≤ config.ttlMinutes
  timer   : s.msgInTimer.isSome
  lists   : ∀ env i out, env.Chooses → s.wsListIds env i = some out →
    ∃ infos text, SignalJson.toString (.listIdsReply infos) = some text ∧
      out = [.wsServer (.message i text)] ∧
      ∀ info ∈ infos, ∃ id j, info.getId = some id ∧ Live h s id j

-- A node which is in the list of nodes announces another id on its connection.
def Deserts (s : SignalServer) (input : SignalIn) : Prop :=
  ∃ index text ann id id', input = .wsServer (.message index text) ∧
    s.Registers index text ann id id' ∧ id ∈ s.info ∧ id' ≠ id

section

variable {config : SignalConfig} {h : List SignalEvent} {s s' : SignalServer} {e : SignalEvent}
  {env : SignalEnv} {input : SignalIn} {out : List SignalOut} {index i : Nat} {id : U256}

-- What the three maps keep of each other, whatever time is left.
structure Kept (h : List SignalEvent) (s : SignalServer) : Prop where
  named  : ∀ {id info}, s.info.lookup id = some info → info.getId = some id
  mapped : ∀ {id}, id ∈ s.info → ∃ i, s.entry i = some id
  timed  : ∀ {i id}, s.entry i = some id → i ∈ s.ttl
  opened : ∀ {i}, i ∈ s.ttl → isOpen i h

-- Each connection has some time left.
structure Timed (config : SignalConfig) (s : SignalServer) : Prop where
  same : s.config = config
  ttl  : ∀ {i t}, s.ttl.lookup i = some t → 1 ≤ t ∧ t ≤ config.ttlMinutes

omit [SignalJson] [Ed25519Compact] in
theorem challengeOf_ne_none_of_isOpen (ho : isOpen i h) : challengeOf i h ≠ none := by
  induction h
  case nil => cases ho
  case cons e h hi =>
    simp only [isOpen, challengeOf] at ho ⊢
    split at ho
    case isTrue hc  => simp [hc]
    case isFalse hc =>
      split at ho
      case isTrue  => cases ho
      case isFalse => simpa [hc] using hi ho

section

omit [SignalJson] [Ed25519Compact]

theorem lookup_info_removeNode : (s.removeNode index).info.lookup id =
    if s.entry index = some id then none else s.info.lookup id := by
  unfold removeNode entry
  cases he : s.connectionIds.getByRight index
  case none => simp
  case some id' => simp [HashMap.lookup_erase_eq, eq_comm]

theorem mem_info_removeNode :
    id ∈ (s.removeNode index).info ↔ s.entry index ≠ some id ∧ id ∈ s.info := by
  rw [HashMap.mem_iff_lookup, HashMap.mem_iff_lookup, lookup_info_removeNode]
  split <;> simp_all

theorem mem_ttl_removeNode : i ∈ (s.removeNode index).ttl ↔ i ≠ index ∧ i ∈ s.ttl :=
  AList.mem_erase

theorem Kept.removeNode (hk : Kept h s) (index : Nat) : Kept h (s.removeNode index) where
  named hl := by
    rw [lookup_info_removeNode] at hl
    split at hl
    case isTrue  => cases hl
    case isFalse => exact hk.named hl
  mapped hm := by
    have ⟨hn, hm⟩ := mem_info_removeNode.mp hm
    have ⟨i, he⟩ := hk.mapped hm
    exact ⟨i, entry_removeNode.mpr ⟨fun hi => hn (hi ▸ he), he⟩⟩
  timed he :=
    have ⟨hi, he⟩ := entry_removeNode.mp he
    mem_ttl_removeNode.mpr ⟨hi, hk.timed he⟩
  opened hm := hk.opened (mem_ttl_removeNode.mp hm).right

theorem Kept.foldl_removeNode (hk : Kept h s) (indices : List Nat) :
    Kept h (indices.foldl SignalServer.removeNode s) := by
  induction indices generalizing s
  case nil                => exact hk
  case cons index rest hi => exact hi <| hk.removeNode index

theorem Kept.withTtl {ttl : HashMap Nat UInt16} (hk : Kept h s) (ht : ∀ i, i ∈ ttl ↔ i ∈ s.ttl) :
    Kept h { s with ttl } where
  named hl  := hk.named hl
  mapped hm := hk.mapped hm
  timed he  := (ht _).mpr <| hk.timed he
  opened hm := hk.opened <| (ht _).mp hm

-- The connections are neither opened nor closed by the event.
theorem Kept.cons (hk : Kept h s) (hc : ∀ i, e.input ≠ .wsServer (.newConnection i))
    (hd : ∀ i, e.input ≠ .wsServer (.disconnection i)) : Kept (e :: h) s where
  named     := hk.named
  mapped    := hk.mapped
  timed     := hk.timed
  opened hm := by simpa [isOpen, hc, hd] using hk.opened hm

theorem mem_ttl_refresh : i ∈ (s.refresh index).ttl ↔ i ∈ s.ttl := by
  rw [HashMap.mem_iff_lookup, HashMap.mem_iff_lookup, refresh, HashMap.lookup_modify]
  split
  case isTrue hi  => cases hl : s.ttl.lookup index <;> simp [hi ▸ hl]
  case isFalse hi => rfl

theorem Kept.refresh (hk : Kept h s) (index : Nat) : Kept h (s.refresh index) :=
  hk.withTtl fun _ => mem_ttl_refresh

-- A connection is opened which was not known before.
theorem Kept.accept (hk : Kept h s) (hc : challengeOf index h = none)
    (hi : e.input = .wsServer (.newConnection index)) (challenge : U256) :
    Kept (e :: h) (s.accept index challenge) where
  named hl  := hk.named hl
  mapped {id} hm := by
    have ⟨i, he⟩ := hk.mapped hm
    have hne : i ≠ index := fun hi =>
      challengeOf_ne_none_of_isOpen (hk.opened (hk.timed he)) (hi ▸ hc)
    by_cases hid : id = challenge
    case pos => exact ⟨index, entry_accept.mpr <| .inl ⟨hid, rfl⟩⟩
    case neg => exact ⟨i, entry_accept.mpr <| .inr ⟨he, hid, hne⟩⟩
  timed he := by
    apply AList.mem_insert .. |>.mpr
    rcases entry_accept.mp he with ⟨_, hi⟩ | ⟨he, _⟩
    · exact .inl hi
    · exact .inr <| hk.timed he
  opened {i} hm := by
    by_cases hne : i = index
    case pos => simp [isOpen, hi, hne]
    case neg =>
      have ho := hk.opened <| AList.mem_insert .. |>.mp hm |>.resolve_left hne
      simpa [isOpen, hi, Ne.symm hne] using ho

-- Only an id which is in the list and was kept for the connection could be lost.
theorem Kept.register {info : NodeInfo} {challenge : U256} (hk : Kept h s)
    (he : s.entry index = some challenge) (hid : info.getId = some id)
    (hd : challenge ∈ s.info → id = challenge) : Kept h (s.register index id info) where
  named {id'} info' hl := by
    rw [SignalServer.register, HashMap.lookup_insert_eq] at hl
    split at hl
    case isTrue hi => cases hl; exact hi ▸ hid
    case isFalse   => exact hk.named hl
  mapped {id'} hm := by
    by_cases hi : id' = id
    case pos => exact ⟨index, entry_register.mpr <| .inl ⟨hi, rfl⟩⟩
    case neg =>
      have hm : id' ∈ s.info := AList.mem_insert .. |>.mp hm |>.resolve_left hi
      have ⟨i, he'⟩ := hk.mapped hm
      refine ⟨i, entry_register.mpr <| .inr ⟨he', hi, fun hx => ?_⟩⟩
      cases he.symm.trans (hx ▸ he')
      exact hi (hd hm).symm
  timed he' := by
    rcases entry_register.mp he' with ⟨_, hi⟩ | ⟨he', _⟩
    · rw [hi]; exact hk.timed he
    · exact hk.timed he'
  opened hm := hk.opened hm

-- The time left after a tick, before the connections without any are removed.
def ticked (s : SignalServer) : SignalServer :=
  { s with ttl := s.ttl.keys.foldl (fun ttl index => HashMap.modify ttl index (· - 1)) s.ttl }

def expired (s : SignalServer) : List Nat :=
  (s.ticked.ttl.pairs.filter (·.2 = 0)).map Prod.fst

theorem msgInTimer_eq_some : s.msgInTimer = some s' ↔
    0 ∉ s.ttl.values ∧ s' = s.expired.foldl SignalServer.removeNode s.ticked := by
  unfold msgInTimer
  split
  case isTrue hc =>
    have hm : 0 ∈ s.ttl.values := by simpa using hc
    constructor
    case mp  => intro h; cases h
    case mpr => exact fun h => absurd hm h.left
  case isFalse hc =>
    have hm : 0 ∉ s.ttl.values := by simpa using hc
    constructor
    case mp  => exact fun h => ⟨hm, (Option.some.inj h).symm⟩
    case mpr => exact fun h => congrArg some h.right.symm

theorem lookup_ttl_ticked : s.ticked.ttl.lookup i = (s.ttl.lookup i).map (· - 1) := by
  rw [ticked, HashMap.lookup_foldl_modify s.ttl.keys_nodup]
  split
  case isTrue     => rfl
  case isFalse hk => simp [AList.lookup_eq_none.mpr hk]

theorem mem_expired : i ∈ s.expired ↔ s.ticked.ttl.lookup i = some 0 := by
  simp [expired, ← HashMap.mem_pairs]

theorem lookup_ttl_foldl_removeNode (indices : List Nat) :
    (indices.foldl SignalServer.removeNode s).ttl.lookup i =
      if i ∈ indices then none else s.ttl.lookup i := by
  induction indices generalizing s
  case nil => rfl
  case cons index rest hi =>
    rw [List.foldl_cons, hi, SignalServer.removeNode, HashMap.lookup_erase_eq]
    by_cases hx : i = index <;> simp [hx]

theorem config_foldl_removeNode (indices : List Nat) :
    (indices.foldl SignalServer.removeNode s).config = s.config := by
  induction indices generalizing s
  case nil             => rfl
  case cons _ rest hi => exact hi

theorem Kept.tick (hk : Kept h s) (ht : s.msgInTimer = some s') : Kept h s' := by
  rw [(msgInTimer_eq_some.mp ht).right]
  refine Kept.foldl_removeNode (hk.withTtl fun i => ?_) _
  rw [HashMap.mem_iff_lookup, HashMap.mem_iff_lookup]
  have hl := lookup_ttl_ticked (s := s) (i := i)
  cases hs : s.ttl.lookup i <;> simp_all [ticked]

theorem Timed.tick (ht : Timed config s) (hs : s.msgInTimer = some s') : Timed config s' := by
  rw [(msgInTimer_eq_some.mp hs).right]
  constructor
  case same => rw [config_foldl_removeNode]; exact ht.same
  case ttl =>
    intro i t hl
    rw [lookup_ttl_foldl_removeNode] at hl
    split at hl
    case isTrue => cases hl
    case isFalse hm =>
      have hne : t ≠ 0 := fun h0 => hm <| mem_expired.mpr (h0 ▸ hl)
      obtain ⟨t₀, h₀, rfl⟩ := Option.map_eq_some_iff.mp (lookup_ttl_ticked ▸ hl)
      have ⟨h₁, h₂⟩ := ht.ttl h₀
      grind

theorem Timed.removeNode (ht : Timed config s) (index : Nat) :
    Timed config (s.removeNode index) where
  same := ht.same
  ttl hl := by
    rw [SignalServer.removeNode, HashMap.lookup_erase_eq] at hl
    split at hl
    case isTrue  => cases hl
    case isFalse => exact ht.ttl hl

theorem Timed.refresh (ht : Timed config s) (hc : 1 ≤ config.ttlMinutes) (index : Nat) :
    Timed config (s.refresh index) where
  same := ht.same
  ttl hl := by
    rw [SignalServer.refresh, HashMap.lookup_modify] at hl
    split at hl
    case isTrue =>
      obtain ⟨_, _, rfl⟩ := Option.map_eq_some_iff.mp hl
      rw [ht.same]
      exact ⟨hc, UInt16.le_refl _⟩
    case isFalse => exact ht.ttl hl

theorem Timed.accept (ht : Timed config s) (hc : 1 ≤ config.ttlMinutes) (index : Nat)
    (challenge : U256) : Timed config (s.accept index challenge) where
  same := ht.same
  ttl hl := by
    rw [SignalServer.accept, HashMap.lookup_insert_eq] at hl
    split at hl
    case isTrue =>
      cases hl
      rw [ht.same]
      exact ⟨hc, UInt16.le_refl _⟩
    case isFalse => exact ht.ttl hl

end

theorem Timed.step (ht : Timed config s) (hc : 1 ≤ config.ttlMinutes)
    (hs : Handles s s' env input out) : Timed config s' := by
  cases hs
  case ticks hs _                            => exact ht.tick hs
  case removes index _ hs _                  => exact hs ▸ ht.removeNode index
  case connects index _ _ _ hs _             => exact hs ▸ ht.accept hc index _
  case forwards index _ _ _ _ _ _ _ _ _ hs _ => exact hs ▸ ht.refresh hc index
  case lists index _ _ _ _ hs                => exact hs ▸ ht.refresh hc index
  case refreshes index _ _ _ _ hs _          => exact hs ▸ ht.refresh hc index
  case passes _ hs _                         => exact hs ▸ ht
  case registers index _ _ _ _ _ _ _ _ hs _ =>
    have hr := ht.refresh hc index
    exact hs ▸ ⟨hr.same, hr.ttl⟩

theorem Kept.step (hk : Kept h s) (ho : OpensOnce h s input) (hd : ¬ Deserts s input)
    (hs : Handles s s' env input out) : Kept (⟨env, input, out⟩ :: h) s' := by
  -- Where the event is about no connection which is opened or closed.
  have hold {s : SignalServer} (hk : Kept h s) (hc : ∀ i, input ≠ .wsServer (.newConnection i))
      (hd : ∀ i, input ≠ .wsServer (.disconnection i)) : Kept (⟨env, input, out⟩ :: h) s :=
    hk.cons hc hd
  cases hs
  case ticks hi hs _ =>
    exact hold (hk.tick hs) (by simp [hi]) (by simp [hi])
  case removes index hi hs _ =>
    have hr := hk.removeNode index
    subst hs
    refine ⟨hr.named, hr.mapped, hr.timed, fun {i} hm => ?_⟩
    have hne := (mem_ttl_removeNode.mp hm).left
    simpa [isOpen, hi, Ne.symm hne] using hr.opened hm
  case connects index _ hi _ hs _ =>
    exact hs ▸ hk.accept (ho index hi) hi env.rnd
  case registers index text ann challenge id _ hi hr _ hs _ =>
    have he : (s.refresh index).entry index = some challenge := hr.entry
    have hx := (hk.refresh index).register he hr.getId fun hm => by
      by_contra hne
      exact hd ⟨index, text, ann, challenge, id, hi, hr, hm, hne⟩
    exact hs ▸ hold hx (by simp [hi]) (by simp [hi])
  case forwards index _ _ _ _ _ _ hi _ _ hs _ =>
    exact hs ▸ hold (hk.refresh index) (by simp [hi]) (by simp [hi])
  case lists index _ hi _ _ hs =>
    exact hs ▸ hold (hk.refresh index) (by simp [hi]) (by simp [hi])
  case refreshes index _ hi _ _ hs _ =>
    exact hs ▸ hold (hk.refresh index) (by simp [hi]) (by simp [hi])
  case passes hi hs _ =>
    rcases hi with hi | hi
    all_goals exact hs ▸ hold hk (by simp [hi]) (by simp [hi])

omit [SignalJson] [Ed25519Compact] in
theorem Kept.live (hk : Kept h s) (hm : id ∈ s.info) : ∃ i, Live h s id i := by
  have ⟨i, he⟩ := hk.mapped hm
  exact ⟨i, getByLeft_eq_some.mpr he, hk.timed he, hk.opened (hk.timed he)⟩

omit [Ed25519Compact] in
theorem Kept.consistent (hk : Kept h s) (ht : Timed config s) : Consistent config h s where
  info id   := hk.live
  entries i id := hk.timed
  ttl i t   := ht.ttl
  timer     := by
    refine Option.isSome_iff_exists.mpr ⟨_, msgInTimer_eq_some.mpr ⟨fun hm => ?_, rfl⟩⟩
    have ⟨i, hl⟩ := HashMap.mem_values.mp hm
    exact absurd (ht.ttl hl).left (by decide)
  lists env i out hc hl := by
    have ⟨text, hw, hout⟩ := sendMsgNode_eq_some.mp hl
    refine ⟨_, text, hw, hout, fun info hi => ?_⟩
    have ⟨id, hl⟩ := HashMap.mem_values.mp (hc _ _ _ hi)
    have ⟨j, hj⟩ := hk.live <| HashMap.mem_iff_lookup.mpr ⟨info, hl⟩
    exact ⟨id, j, hk.named hl, hj⟩

omit [SignalJson] [Ed25519Compact] in
theorem Kept.new : Kept [] (.new config) where
  named hl  := by cases hl
  mapped hm := by cases hm
  timed he  := by cases he
  opened hm := by cases hm

-- After a node is gone to another id, the list of nodes still has the first one.
theorem not_consistent_of_deserts (hd : Deserts s input) (hs : Handles s s' env input out) :
    ¬ Consistent config (e :: h) s' := by
  obtain ⟨index, text, ann, id, id', hi, hr, hm, hne⟩ := hd
  intro hc
  cases hs
  case ticks hi' _ _                    => cases hi.symm.trans hi'
  case removes hi' _ _                  => cases hi.symm.trans hi'
  case connects hi' _ _ _               => cases hi.symm.trans hi'
  case forwards hi' hf _ _ _            => cases hi.symm.trans hi'; cases hr.json.symm.trans hf.json
  case lists hi' hj _ _                 => cases hi.symm.trans hi'; cases hr.json.symm.trans hj
  case refreshes hi' hn _ _ _           => cases hi.symm.trans hi'; exact hn _ _ _ hr
  case passes hi' _ _                   => rcases hi' with hi' | hi' <;> cases hi.symm.trans hi'
  case registers hi' hr' _ hs _ =>
    cases hi.symm.trans hi'
    cases hr.json.symm.trans hr'.json
    cases hr.getId.symm.trans hr'.getId
    have hm : id ∈ s'.info := by
      rw [hs]
      exact AList.mem_insert .. |>.mpr <| .inr hm
    have ⟨i, hl⟩ := hc.info id hm
    have he := getByLeft_eq_some.mp hl.mapped
    rw [hs] at he
    rcases entry_register.mp he with ⟨he, _⟩ | ⟨he, _, hx⟩
    · exact hne he.symm
    · have hl := getByLeft_eq_some.mpr hr.entry
      cases hl.symm.trans (getByLeft_eq_some.mpr he)
      exact hx rfl

theorem consistent_of_runs (hr : Runs config OpensOnce h s) (hc : 1 ≤ config.ttlMinutes)
    (hd : ∀ e h' s', e :: h' <:+ h → Runs config OpensOnce h' s' → ¬ Deserts s' e.input) :
    Kept h s ∧ Timed config s := by
  induction hr
  case new => exact ⟨.new, rfl, fun hl => by cases hl⟩
  case step h s s' env input out hr ho hm hi =>
    have ⟨hk, ht⟩ := hi fun e h' s' hs => hd e h' s' (hs.trans (List.suffix_cons _ h))
    have hs := handles_of_msgIn hm
    exact ⟨hk.step ho (hd ⟨env, input, out⟩ h s List.suffix_rfl hr) hs, ht.step hc hs⟩

-- The registry is consistent in all states of a run if and only if no node of the list announces
-- another id on its connection.
theorem consistent_iff (hr : Runs config OpensOnce h s) (hc : 1 ≤ config.ttlMinutes) :
    (∀ h' s', h' <:+ h → Runs config OpensOnce h' s' → Consistent config h' s') ↔
      ∀ e h' s', e :: h' <:+ h → Runs config OpensOnce h' s' → ¬ Deserts s' e.input := by
  constructor
  case mp =>
    intro hall e h' s' hs hr' hd
    have ⟨s'', hr'', _, hm⟩ := hr.step_of_suffix hs hr'
    exact not_consistent_of_deserts hd (handles_of_msgIn hm) (hall _ _ hs hr'')
  case mpr =>
    intro hd h' s' hs hr'
    have ⟨hk, ht⟩ := consistent_of_runs hr' hc fun e h'' s'' hs' => hd e h'' s'' (hs'.trans hs)
    exact hk.consistent ht

end

end

section Concrete

attribute [local instance] announcements Ed25519Compact.plain

theorem opensOnce_of_message {h : List SignalEvent} {s : SignalServer} {index : Nat}
    {text : String} : OpensOnce h s (.wsServer (.message index text)) := by
  intro i hi
  cases hi

theorem opensOnce_connect : OpensOnce [] (new sampleConfig) connect :=
  fun _ _ => rfl

theorem not_deserts_first : ¬ Deserts connected.1 first := by
  intro ⟨_, _, _, id, _, _, _, hm, _⟩
  have he : connected.1.info.keys = [] := by decide +kernel
  have hk := AList.mem_keys.mp hm
  simp [he] at hk

theorem consistent_iff_first : joinedFirst.1.info.keys = [.ofPrefix [1]] ∧
    ∀ h s, h <:+ firstHistory → Runs sampleConfig OpensOnce h s → Consistent sampleConfig h s := by
  have hr := runs_first opensOnce_connect opensOnce_of_message
  refine ⟨by decide +kernel, consistent_iff hr (by decide) |>.mpr ?_⟩
  intro e h s hs hr'
  rcases List.suffix_cons_iff.mp hs with he | hs
  · cases he
    cases hr'.unique <| .step .new opensOnce_connect msgIn_connect
    exact not_deserts_first
  · rcases List.suffix_cons_iff.mp hs with he | hs
    · cases he
      rintro ⟨_, _, _, _, _, hi, _⟩
      cases hi
    · cases List.suffix_nil.mp hs

-- The first node stays in the list after its connection has become the one of the second node.
theorem second_not_consistent : Runs sampleConfig OpensOnce secondHistory joinedSecond.1 ∧
    ¬ Consistent sampleConfig secondHistory joinedSecond.1 := by
  have hr := runs_first opensOnce_connect opensOnce_of_message
  refine ⟨.step hr opensOnce_of_message msgIn_second, fun hc => ?_⟩
  have hm : .ofPrefix [1] ∈ joinedSecond.1.info.keys := by decide +kernel
  have ⟨i, hl⟩ := hc.info _ (AList.mem_keys.mpr hm)
  have hn : joinedSecond.1.connectionIds.getByLeft (.ofPrefix [1]) = none := by decide +kernel
  cases hn.symm.trans hl.mapped

end Concrete

end SignalServer
