import Fledger.GossipEvents.Acceptance

namespace GossipEvents

variable [Sha256]

-- Text messages which fit into a storage all together.
structure Posts (posts : List Event) : Prop where
  texts    : ∀ e ∈ posts, e.category = .textMessage
  distinct : (posts.map Event.getId).Nodup
  few      : posts.length ≤ 50

theorem Posts.inj {posts : List Event} {e f : Event} (h : Posts posts) (he : e ∈ posts)
    (hf : f ∈ posts) (hi : e.getId = f.getId) : e = f :=
  List.inj_on_of_nodup_map h.distinct he hf hi

namespace EventsStorage

-- The configuration of the text messages is that of `new`, and nothing but posts is stored.
structure Within (posts : List Event) (s : EventsStorage) : Prop where
  wf     : s.Wf
  config : ∀ evs, s.storage.lookup .textMessage = some evs →
    evs.config = { unique := false, maxEvents := 50 }
  posts  : ∀ e, s.Holds e → e ∈ posts

variable {posts : List Event} {s : EventsStorage} {msg e : Event} {evs : Events} {id : U256}
  {rehash : HashMap.Rehash U256 Event}

theorem within_new : Within posts .new where
  wf           := wf_new
  config _ h   := by cases h; rfl
  posts e h    := by
    obtain ⟨evs, he, hl⟩ := h
    cases hc : e.category <;> rw [hc] at he <;> cases he <;> cases hl

theorem Within.length_lt (h : Within posts s) (hp : Posts posts) (hm : msg ∈ posts)
    (he : s.storage.lookup .textMessage = some evs) (hk : msg.getId ∉ evs.events) :
    (evs.rivals msg).length < 50 := by
  have hs : msg.getId :: evs.events.keys ⊆ posts.map Event.getId := by
    intro i hi
    cases List.mem_cons.mp hi
    case inl hi => exact hi ▸ List.mem_map_of_mem hm
    case inr hi =>
      have ⟨e, hl⟩ := HashMap.mem_iff_lookup.mp <| AList.mem_keys.mpr hi
      have hw := h.wf.events _ _ he
      have hi := hw.keyed _ _ hl
      have hh : s.Holds e := ⟨evs, by rw [hw.category _ _ hl, he], by rw [hi, hl]⟩
      exact hi ▸ List.mem_map_of_mem (h.posts e hh)
  have hn : (msg.getId :: evs.events.keys).Nodup :=
    List.nodup_cons.mpr ⟨fun hm => hk <| AList.mem_keys.mpr hm, evs.events.keys_nodup⟩
  calc (evs.rivals msg).length
    _ < (msg.getId :: evs.events.keys).length := Nat.lt_succ_of_le Events.length_rivals_le_keys
    _ ≤ (posts.map Event.getId).length         := (List.subperm_of_subset hn hs).length_le
    _ = posts.length                           := List.length_map _
    _ ≤ 50                                     := hp.few

-- Whatever of the posts comes in fits, and nothing is lost.
theorem Within.fits (h : Within posts s) (hp : Posts posts) (hm : msg ∈ posts) : s.Fits msg := by
  intro evs he
  rw [hp.texts _ hm] at he
  by_cases hk : msg.getId ∈ evs.events
  case pos => exact .inl hk
  case neg =>
    refine .inr <| .inr <| .inl ?_
    rw [h.config _ he]
    exact h.length_lt hp hm he hk

theorem Within.spares (h : Within posts s) (hp : Posts posts) (hm : msg ∈ posts) :
    s.Spares msg e := by
  intro _ evs he
  rw [hp.texts _ hm] at he
  by_cases hk : msg.getId ∈ evs.events
  case pos => exact .inl hk
  case neg =>
    refine .inr <| .inr ⟨?_, .inl ?_⟩
    · rw [h.config _ he]
      exact nofun
    · rw [h.config _ he]
      exact h.length_lt hp hm he hk

-- A post is only refused if it is there already.
theorem Within.holds_of_refused (h : Within posts s) (hp : Posts posts) (hm : msg ∈ posts)
    (ha : (s.addEvent rehash msg).2 = false) : s.Holds msg := by
  have ⟨evs, he⟩ := h.wf.lookup msg.category
  have hw := h.wf.events _ _ he
  rw [addEvent_eq he] at ha
  obtain ⟨hk, _⟩ | ⟨_, hs, _⟩ | ⟨_, _, hi⟩ := Events.insert_cases hw.sound msg rehash
  case inl =>
    have ⟨e, hl⟩ := HashMap.mem_iff_lookup.mp hk
    have hi := hw.keyed _ _ hl
    have hh : s.Holds e := ⟨evs, by rw [hw.category _ _ hl, he], by rw [hi, hl]⟩
    exact hp.inj (h.posts e hh) hm hi ▸ hh
  case inr.inl =>
    rw [hp.texts _ hm] at he
    have hu := hs.left
    rw [h.config _ he] at hu
    cases hu
  case inr.inr => cases hi ▸ ha

theorem Within.holds_addEvent (h : Within posts s) (hp : Posts posts) (hm : msg ∈ posts) :
    (s.addEvent rehash msg).1.Holds e ↔ s.Holds e ∨ e = msg := by
  constructor
  case mp  => exact holds_of_holds_addEvent h.wf
  case mpr =>
    intro he
    cases he
    case inl he => exact holds_addEvent_of_spares h.wf he <| h.spares hp hm
    case inr he =>
      cases he
      cases ha : (s.addEvent rehash msg).2
      case true  => exact holds_addEvent_of_fits h.wf (h.fits hp hm) ha
      case false =>
        exact holds_addEvent_of_not_added h.wf ha |>.mpr <| h.holds_of_refused hp hm ha

theorem Within.added_iff (h : Within posts s) (hp : Posts posts) (hm : msg ∈ posts) :
    (s.addEvent rehash msg).2 = true ↔ ¬ s.Holds msg := by
  refine ⟨not_holds_of_added h.wf, fun hn => ?_⟩
  by_contra ha
  exact hn <| h.holds_of_refused hp hm <| Bool.eq_false_iff.mpr ha

theorem Within.addEvent (h : Within posts s) (hp : Posts posts) (hm : msg ∈ posts) :
    Within posts (s.addEvent rehash msg).1 where
  wf := h.wf.addEvent
  config evs' he' := by
    have ⟨evs, he⟩ := h.wf.lookup msg.category
    rw [addEvent_eq he, hp.texts _ hm, HashMap.lookup_insert_eq, if_pos rfl] at he'
    cases he'
    rw [Events.config_insert (h.wf.events _ _ he).sound]
    exact h.config _ <| hp.texts _ hm ▸ he
  posts e he := by
    cases h.holds_addEvent hp hm |>.mp he
    case inl he => exact h.posts e he
    case inr he => exact he ▸ hm

end EventsStorage

namespace GossipIn

-- The events which an input brings.
def carried : GossipIn → List Event
  | .addEvent e                 => [e]
  | .fromNetwork _ (.events es) => es
  | _                           => []

-- Those which the node might have asked for.
def delivered : GossipIn → List Event
  | .fromNetwork _ (.events es) => es
  | _                           => []

def sender : GossipIn → Option NodeID
  | .fromNetwork src _ => some src
  | _                  => none

omit [Sha256] in
theorem mem_carried_of_delivered {i : GossipIn} {e : Event} (h : e ∈ i.delivered) :
    e ∈ i.carried := by
  cases i
  case fromNetwork src msg => cases msg <;> exact h
  all_goals cases h

end GossipIn

namespace Messages

open EventsStorage

variable {posts : List Event} {m m' : Messages} {env : Env} {i : GossipIn}
  {out : List GossipOut} {e : Event} {es : List Event} {src dst : NodeID} {id : U256}
  {ids : List U256}

-- What an input makes of a node which stores posts, as far as others can rely on it.
structure Handles (posts : List Event) (m : Messages) (i : GossipIn) (m' : Messages)
    (out : List GossipOut) : Prop where
  id          : m'.id = m.id
  nodes       : m'.nodes = m.nodes
  within      : Within posts m'.events
  holds       : ∀ e, m'.events.Holds e ↔ m.events.Holds e ∨ e ∈ i.carried
  -- New events are announced, but not to where they come from.
  announced   : ∀ e ∈ i.carried, ¬ m.events.Holds e →
    ∀ n ∈ m.nodes, n ≠ m.id → n ≠ e.src → i.sender ≠ some n →
      ∃ ids, .toNetwork n (.knownEventIDs ids) ∈ out ∧ e.getId ∈ ids
  outstanding : ∀ id ∈ m'.outstanding,
    (id ∈ m.outstanding ∧ id ∉ i.delivered.map Event.getId) ∨
    ∃ n ids, .toNetwork n (.requestEvents ids) ∈ out ∧ id ∈ ids
  known       : ∀ n ids, i = .fromNetwork n (.knownEventIDs ids) →
    ∀ id ∈ ids, id ∈ m'.events.eventIds ∨ id ∈ m'.outstanding
  answered    : ∀ n ids, i = .fromNetwork n (.requestEvents ids) →
    ∀ id ∈ ids, id ∈ m.events.eventIds →
      ∃ es, .toNetwork n (.events es) ∈ out ∧ id ∈ es.map Event.getId
  recipients  : ∀ n msg, .toNetwork n msg ∈ out → n ∈ m.nodes ∨ i.sender = some n
  offers      : ∀ n ids, .toNetwork n (.knownEventIDs ids) ∈ out →
    ∀ id ∈ ids, id ∈ m'.events.eventIds
  sends       : ∀ n es, .toNetwork n (.events es) ∈ out → ∀ e ∈ es, m'.events.Holds e
  requests    : ∀ n ids, .toNetwork n (.requestEvents ids) ∈ out →
    ∃ known, i = .fromNetwork n (.knownEventIDs known) ∧ ids ⊆ known

theorem within_addEvents (h : Within posts m.events) (hp : Posts posts) (he : ∀ e ∈ es, e ∈ posts) :
    Within posts (m.addEvents env es).1.events := by
  induction es generalizing m env
  case nil          => exact h
  case cons e es hi =>
    have ⟨hm, he⟩ := List.forall_mem_cons.mp he
    exact hi (m := m.takeEvent env e) (h.addEvent hp hm) he

theorem holds_addEvents_iff (h : Within posts m.events) (hp : Posts posts)
    (he : ∀ e ∈ es, e ∈ posts) :
    (m.addEvents env es).1.events.Holds e ↔ m.events.Holds e ∨ e ∈ es := by
  induction es generalizing m env
  case nil          => exact (or_iff_left List.not_mem_nil).symm
  case cons f es hi =>
    have ⟨hm, he⟩ := List.forall_mem_cons.mp he
    rw [addEvents_cons_fst, hi (m := m.takeEvent env f) (h.addEvent hp hm) he, takeEvent,
      h.holds_addEvent hp hm, List.mem_cons, or_assoc]

-- The events which are new to the node are handed on, each of them at least once.
theorem mem_addEvents (h : Within posts m.events) (hp : Posts posts) (hes : ∀ e ∈ es, e ∈ posts)
    (he : e ∈ es) (hn : ¬ m.events.Holds e) : e ∈ (m.addEvents env es).2 := by
  induction es generalizing m env
  case nil          => cases he
  case cons f es hi =>
    have ⟨hm, hes⟩ := List.forall_mem_cons.mp hes
    rw [addEvents_cons_snd]
    by_cases hf : e = f
    case pos =>
      rw [if_pos <| h.added_iff hp hm |>.mpr <| hf ▸ hn, hf]
      exact List.mem_cons_self
    case neg =>
      have hn : ¬ (m.takeEvent env f).events.Holds e :=
        fun hh => h.holds_addEvent hp hm |>.mp hh |>.elim hn hf
      have hi : e ∈ ((m.takeEvent env f).addEvents env.next es).2 :=
        hi (h.addEvent hp hm) hes (List.mem_of_ne_of_mem hf he) hn
      split
      case isTrue  => exact List.mem_cons_of_mem _ hi
      case isFalse => exact hi

theorem addEvents_frame (m : Messages) (env : Env) (es : List Event) :
    (m.addEvents env es).1.id = m.id ∧ (m.addEvents env es).1.nodes = m.nodes ∧
      (∀ e ∈ (m.addEvents env es).2, e ∈ es) ∧
      ∀ id ∈ (m.addEvents env es).1.outstanding, id ∈ m.outstanding ∧ id ∉ es.map Event.getId := by
  induction es generalizing m env
  case nil          => exact ⟨rfl, rfl, nofun, fun id hi => ⟨hi, List.not_mem_nil⟩⟩
  case cons f es hi =>
    have ⟨h₁, h₂, h₃, h₄⟩ := hi (m.takeEvent env f) env.next
    refine ⟨h₁, h₂, ?_, ?_⟩
    case refine_1 =>
      intro e he
      rw [addEvents_cons_snd] at he
      split at he
      case isFalse => exact List.mem_cons_of_mem _ <| h₃ e he
      case isTrue  =>
        cases List.mem_cons.mp he
        case inl he => exact he ▸ List.mem_cons_self
        case inr he => exact List.mem_cons_of_mem _ <| h₃ e he
    case refine_2 =>
      intro id hid
      have ⟨ho, hn⟩ := h₄ id hid
      have ⟨ho, hf⟩ := List.mem_filter.mp ho
      refine ⟨ho, fun hm => ?_⟩
      cases List.mem_cons.mp hm
      case inl hm => exact of_decide_eq_true hf hm
      case inr hm => exact hn hm

theorem announced_sendEvents (he : e ∈ es) (hn : dst ∈ m.nodes) (hs : dst ≠ src) (hi : dst ≠ m.id)
    (hd : dst ≠ e.src) :
    ∃ ids, .toNetwork dst (.knownEventIDs ids) ∈ m.sendEvents src es ∧ e.getId ∈ ids := by
  refine ⟨_, mem_sendEvents.mpr <| .inl ⟨dst, hn, hs, hi, rfl⟩, ?_⟩
  exact List.mem_filterMap.mpr ⟨e, he, if_pos hd⟩

theorem mem_eventIds_of_holds (h : m.events.Wf) (he : m.events.Holds e) :
    e.getId ∈ m.events.eventIds :=
  mem_eventIds h |>.mpr ⟨e, he, rfl⟩

-- What `send_events` sends are announcements of the given events to other nodes.
theorem toNetwork_sendEvents {msg : ModuleMessage} (h : .toNetwork dst msg ∈ m.sendEvents src es) :
    dst ∈ m.nodes ∧ ∃ ids, msg = .knownEventIDs ids ∧ ∀ id ∈ ids, ∃ e ∈ es, e.getId = id := by
  cases mem_sendEvents.mp h
  case inl hn =>
    have ⟨n, hn, _, _, ho⟩ := hn
    injection ho with hd hm
    refine ⟨hd ▸ hn, _, hm, fun id hi => ?_⟩
    have ⟨e, he, hi⟩ := List.mem_filterMap.mp hi
    split at hi
    case isTrue  => exact ⟨e, he, Option.some.inj hi⟩
    case isFalse => cases hi
  case inr hn =>
    have ⟨_, _, ho⟩ := hn
    cases ho

-- Both ways in which new events are taken end by announcing them.
theorem handles_sendEvents (hid : m'.id = m.id) (hn : m'.nodes = m.nodes)
    (hw : Within posts m'.events) (hh : ∀ e, m'.events.Holds e ↔ m.events.Holds e ∨ e ∈ i.carried)
    (hs : ∀ n, n ≠ m.id → i.sender ≠ some n → n ≠ src)
    (hnew : ∀ e ∈ i.carried, ¬ m.events.Holds e → e ∈ es) (hes : ∀ e ∈ es, m'.events.Holds e)
    (ho : ∀ id ∈ m'.outstanding, id ∈ m.outstanding ∧ id ∉ i.delivered.map Event.getId)
    (hk : ∀ n ids, i ≠ .fromNetwork n (.knownEventIDs ids))
    (hr : ∀ n ids, i ≠ .fromNetwork n (.requestEvents ids)) :
    m.Handles posts i m' (m'.sendEvents src es) where
  id                := hid
  nodes             := hn
  within            := hw
  holds             := hh
  announced e he hne n hm hi hd hf :=
    announced_sendEvents (hnew e he hne) (hn ▸ hm) (hs n hi hf) (hid ▸ hi) hd
  outstanding _ hi  := .inl <| ho _ hi
  known _ _ he      := (hk _ _ he).elim
  answered _ _ he   := (hr _ _ he).elim
  recipients _ _ hm := .inl <| hn ▸ (toNetwork_sendEvents hm).left
  offers _ _ hm id hi := by
    have ⟨_, _, he, hids⟩ := toNetwork_sendEvents hm
    cases he
    have ⟨e, he, hi⟩ := hids id hi
    exact hi ▸ mem_eventIds_of_holds hw.wf (hes e he)
  sends _ _ hm      := by
    have ⟨_, _, he, _⟩ := toNetwork_sendEvents hm
    cases he
  requests _ _ hm   := by
    have ⟨_, _, he, _⟩ := toNetwork_sendEvents hm
    cases he

-- What brings no events leaves the storage as it is, and announces nothing but what is there.
theorem handles_quiet (h : Within posts m.events) (hid : m'.id = m.id) (hn : m'.nodes = m.nodes)
    (he : m'.events = m.events) (hc : i.carried = [])
    (ho : ∀ id ∈ m'.outstanding, (id ∈ m.outstanding ∧ id ∉ i.delivered.map Event.getId) ∨
      ∃ n ids, .toNetwork n (.requestEvents ids) ∈ out ∧ id ∈ ids)
    (hk : ∀ n ids, i = .fromNetwork n (.knownEventIDs ids) →
      ∀ id ∈ ids, id ∈ m.events.eventIds ∨ id ∈ m'.outstanding)
    (ha : ∀ n ids, i = .fromNetwork n (.requestEvents ids) →
      ∀ id ∈ ids, id ∈ m.events.eventIds →
        ∃ es, .toNetwork n (.events es) ∈ out ∧ id ∈ es.map Event.getId)
    (hr : ∀ n msg, .toNetwork n msg ∈ out → n ∈ m.nodes ∨ i.sender = some n)
    (hf : ∀ n ids, .toNetwork n (.knownEventIDs ids) ∈ out → ids = m.events.eventIds)
    (hs : ∀ n es, .toNetwork n (.events es) ∈ out → ∀ e ∈ es, m.events.Holds e)
    (hq : ∀ n ids, .toNetwork n (.requestEvents ids) ∈ out →
      ∃ known, i = .fromNetwork n (.knownEventIDs known) ∧ ids ⊆ known) :
    m.Handles posts i m' out where
  id              := hid
  nodes           := hn
  within          := he ▸ h
  holds _         := by simp [he, hc]
  announced _ he  := by simp [hc] at he
  outstanding     := ho
  known           := he ▸ hk
  answered        := ha
  recipients      := hr
  offers _ _ hm _ hi := by
    rw [he, ← hf _ _ hm]
    exact hi
  sends           := he ▸ hs
  requests        := hq

theorem handles_tick {ticks : Nat} (h : Within posts m.events) :
    m.Handles posts .tick { m with ticks, outstanding := [] } m.tick.2 := by
  have hm {n : NodeID} {msg : ModuleMessage} (hm : .toNetwork n msg ∈ m.tick.2) :
      n ∈ m.nodes ∧ msg = .requestEventIDs := by
    have ⟨_, hn, hm⟩ := List.mem_map.mp hm
    cases hm
    exact ⟨hn, rfl⟩
  refine handles_quiet h rfl rfl rfl rfl ?ho ?hk ?ha ?hr ?hf ?hs ?hq
  case ho => exact nofun
  case hk => exact nofun
  case ha => exact nofun
  case hr => exact fun _ _ ho => .inl (hm ho).left
  case hf => exact fun _ _ ho => nomatch (hm ho).right
  case hs => exact fun _ _ ho => nomatch (hm ho).right
  case hq => exact fun _ _ ho => nomatch (hm ho).right

-- The first ticks do nothing.
theorem handles_wait {ticks : Nat} (h : Within posts m.events) :
    m.Handles posts .tick { m with ticks } [] := by
  refine handles_quiet h rfl rfl rfl rfl ?ho ?hk ?ha ?hr ?hf ?hs ?hq
  case ho => exact fun _ hi => .inl ⟨hi, List.not_mem_nil⟩
  all_goals exact nofun

theorem handles_requestEventList (h : Within posts m.events) :
    m.Handles posts (.fromNetwork src .requestEventIDs) m (m.nodeRequestEventList src) := by
  have hm {n : NodeID} {msg : ModuleMessage} (hm : .toNetwork n msg ∈ m.nodeRequestEventList src) :
      n = src ∧ msg = .knownEventIDs m.events.eventIds := by
    cases List.mem_singleton.mp hm
    exact ⟨rfl, rfl⟩
  refine handles_quiet h rfl rfl rfl rfl ?ho ?hk ?ha ?hr ?hf ?hs ?hq
  case ho => exact fun _ hi => .inl ⟨hi, List.not_mem_nil⟩
  case hk => exact nofun
  case ha => exact nofun
  case hr => exact fun _ _ ho => .inr <| congrArg some (hm ho).left.symm
  case hf => exact fun _ _ ho => by injection (hm ho).right
  case hs => exact fun _ _ ho => nomatch (hm ho).right
  case hq => exact fun _ _ ho => nomatch (hm ho).right

theorem toNetwork_nodeRequestEvents {msg : ModuleMessage}
    (h : .toNetwork dst msg ∈ m.nodeRequestEvents src ids) :
    dst = src ∧ msg = .events (m.events.getEventsByIds ids) := by
  simp only [nodeRequestEvents] at h
  split at h
  case isTrue =>
    cases List.mem_singleton.mp h
    exact ⟨rfl, rfl⟩
  case isFalse => cases h

-- All stored events that are asked for are sent.
theorem handles_requestEvents (h : Within posts m.events) :
    m.Handles posts (.fromNetwork src (.requestEvents ids)) m (m.nodeRequestEvents src ids) := by
  refine handles_quiet h rfl rfl rfl rfl ?ho ?hk ?ha ?hr ?hf ?hs ?hq
  case ho => exact fun _ hi => .inl ⟨hi, List.not_mem_nil⟩
  case hk => exact nofun
  case hr => exact fun _ _ ho => .inr <| congrArg some (toNetwork_nodeRequestEvents ho).left.symm
  case hf => exact fun _ _ ho => nomatch (toNetwork_nodeRequestEvents ho).right
  case hq => exact fun _ _ ho => nomatch (toNetwork_nodeRequestEvents ho).right
  case hs =>
    intro _ _ ho e he
    injection (toNetwork_nodeRequestEvents ho).right with hes
    exact mem_getEventsByIds h.wf |>.mp (hes ▸ he) |>.left
  case ha =>
    intro n ids' hi id hid hmem
    cases hi
    have ⟨e, he, hie⟩ := mem_eventIds h.wf |>.mp hmem
    have hg : e ∈ m.events.getEventsByIds ids := mem_getEventsByIds h.wf |>.mpr ⟨he, hie ▸ hid⟩
    refine ⟨_, ?_, List.mem_map.mpr ⟨e, hg, hie⟩⟩
    rw [nodeRequestEvents, if_pos <| List.ne_nil_of_mem hg]
    exact List.mem_singleton_self _

theorem mem_filterKnownEvents {ids : List U256} (h : id ∈ ids) :
    id ∈ m.events.eventIds ∨ id ∈ m.outstanding ∨ id ∈ m.filterKnownEvents ids := by
  by_cases hs : id ∈ m.events.eventIds
  case pos => exact .inl hs
  case neg =>
    refine .inr ?_
    by_cases ho : id ∈ m.outstanding
    case pos => exact .inl ho
    case neg => exact .inr <| List.mem_filter.mpr ⟨h, decide_eq_true ⟨hs, ho⟩⟩

-- What is neither stored nor outstanding is asked for.
theorem handles_knownEventIds (h : Within posts m.events) :
    m.Handles posts (.fromNetwork src (.knownEventIDs ids)) (m.nodeKnownEventIds src ids).1
      (m.nodeKnownEventIds src ids).2 := by
  have hu (id : U256) (hid : id ∈ ids) := m.mem_filterKnownEvents hid
  unfold nodeKnownEventIds
  by_cases hn : m.filterKnownEvents ids ≠ []
  case neg =>
    simp only [if_neg hn]
    refine handles_quiet h rfl rfl rfl rfl ?ho ?hk ?ha ?hr ?hf ?hs ?hq
    case ho => exact fun _ hi => .inl ⟨hi, List.not_mem_nil⟩
    case hk =>
      intro _ _ hi id hid
      cases hi
      rw [not_not.mp hn] at hu
      exact (hu id hid).imp_right fun ho => ho.resolve_right List.not_mem_nil
    case ha => exact nofun
    case hr => exact nofun
    case hf => exact nofun
    case hs => exact nofun
    case hq => exact nofun
  case pos =>
    simp only [if_pos hn]
    refine handles_quiet h rfl rfl rfl rfl ?ho ?hk ?ha ?hr ?hf ?hs ?hq
    case ho =>
      intro id hid
      cases List.mem_append.mp hid
      case inl hid => exact .inl ⟨hid, List.not_mem_nil⟩
      case inr hid => exact .inr ⟨src, _, List.mem_singleton_self _, hid⟩
    case hk =>
      intro _ _ hi id hid
      cases hi
      exact (hu id hid).imp_right List.mem_append.mpr
    case ha => exact nofun
    case hr =>
      intro n msg hm
      cases List.mem_singleton.mp hm
      exact .inr rfl
    case hf =>
      intro n msg hm
      cases List.mem_singleton.mp hm
    case hs =>
      intro n msg hm
      cases List.mem_singleton.mp hm
    case hq =>
      intro n msg hm
      cases List.mem_singleton.mp hm
      exact ⟨ids, rfl, List.filter_subset_self _⟩

variable [Yaml EventsStorage]

omit [Yaml EventsStorage] in
theorem handles_refused (h : Within posts m.events) (hp : Posts posts) (he : e ∈ posts)
    (ha : (m.events.addEvent (env 0) e).2 = false) :
    m.Handles posts (.addEvent e) { m with events := (m.events.addEvent (env 0) e).1 } [] where
  id                := rfl
  nodes             := rfl
  within            := h.addEvent hp he
  holds _           := h.holds_addEvent hp he |>.trans <| or_congr_right List.mem_singleton.symm
  announced _ hf hn := (hn <| List.mem_singleton.mp hf ▸ h.holds_of_refused hp he ha).elim
  outstanding _ hi  := .inl ⟨hi, List.not_mem_nil⟩
  known             := nofun
  answered          := nofun
  recipients        := nofun
  offers            := nofun
  sends             := nofun
  requests          := nofun

theorem handles_added (h : Within posts m.events) (hp : Posts posts) (he : e ∈ posts)
    (hm : m'.events = (m.events.addEvent (env 0) e).1) (hid : m'.id = m.id)
    (hn : m'.nodes = m.nodes) (ho : m'.outstanding = m.outstanding) :
    m.Handles posts (.addEvent e) m'.store (m'.store.sendEvents m.id [e]) := by
  have hh f : m'.events.Holds f ↔ m.events.Holds f ∨ f ∈ [e] := by
    rw [hm]
    exact h.holds_addEvent hp he |>.trans <| or_congr_right List.mem_singleton.symm
  apply handles_sendEvents
  case hid  => exact store_id.trans hid
  case hn   => exact store_nodes.trans hn
  case hw   => rw [store_events, hm]; exact h.addEvent hp he
  case hh   => rw [store_events]; exact hh
  case hs   => exact fun n hi _ => hi
  case hnew => exact fun _ hf _ => hf
  case hes  => rw [store_events]; exact fun f hf => hh f |>.mpr <| .inr hf
  case ho   => rw [store_outstanding, ho]; exact fun id hi => ⟨hi, List.not_mem_nil⟩
  case hk   => exact nofun
  case hr   => exact nofun

theorem handles_addEvent (h : Within posts m.events) (hp : Posts posts) (he : e ∈ posts) :
    m.Handles posts (.addEvent e) (m.addEvent env e).1 (m.addEvent env e).2 := by
  cases ha : (m.events.addEvent (env 0) e).2
  case false =>
    simp only [addEvent, ha]
    exact handles_refused h hp he ha
  case true =>
    simp only [addEvent, ha, if_true]
    exact handles_added h hp he rfl rfl rfl rfl

theorem handles_events (h : Within posts m.events) (hp : Posts posts) (hes : ∀ e ∈ es, e ∈ posts) :
    m.Handles posts (.fromNetwork src (.events es)) (m.nodeEvents env src es).1
      (m.nodeEvents env src es).2 := by
  have hw : Within posts (m.addEvents env es).1.events := within_addEvents h hp hes
  have hh e : (m.addEvents env es).1.events.Holds e ↔ m.events.Holds e ∨ e ∈ es :=
    holds_addEvents_iff h hp hes
  have ⟨hid, hn, hnew, ho⟩ := addEvents_frame m env es
  have hs : ∀ n, n ≠ m.id → some src ≠ some n → n ≠ src :=
    fun _ _ hs hn => hs <| congrArg some hn.symm
  have hes' : ∀ e ∈ (m.addEvents env es).2, (m.addEvents env es).1.events.Holds e :=
    fun e he => hh e |>.mpr <| .inr <| hnew e he
  have hb : m.Handles posts (.fromNetwork src (.events es)) (m.addEvents env es).1
      ((m.addEvents env es).1.sendEvents src (m.addEvents env es).2) :=
    handles_sendEvents hid hn hw hh hs (fun e => mem_addEvents h hp hes) hes' ho nofun nofun
  simp only [nodeEvents]
  split
  case isFalse => exact hb
  case isTrue  =>
    exact { hb with
      id          := store_id.trans hb.id
      nodes       := store_nodes.trans hb.nodes
      within      := by rw [store_events]; exact hb.within
      holds       := by rw [store_events]; exact hb.holds
      outstanding := by rw [store_outstanding]; exact hb.outstanding
      known       := by rw [store_events, store_outstanding]; exact hb.known
      offers      := by rw [store_events]; exact hb.offers
      sends       := by rw [store_events]; exact hb.sends
    }

theorem handles_processMessage (h : Within posts m.events) (hp : Posts posts)
    (hc : ∀ e ∈ i.carried, e ∈ posts) (hi : ∀ ids, i ≠ .updateNodeList ids) :
    m.Handles posts i (m.processMessage env i).1 (m.processMessage env i).2 := by
  cases i
  case addEvent e         => exact handles_addEvent h hp <| hc e <| List.mem_singleton_self e
  case updateNodeList ids => exact (hi ids rfl).elim
  case tick =>
    simp only [processMessage]
    split
    case isTrue  => exact handles_tick h
    case isFalse => exact handles_wait h
  case fromNetwork src msg =>
    cases msg
    case knownEventIDs ids => exact handles_knownEventIds h
    case events es         => exact handles_events h hp hc
    case requestEventIDs   => exact handles_requestEventList h
    case requestEvents ids => exact handles_requestEvents h

end Messages

end GossipEvents
