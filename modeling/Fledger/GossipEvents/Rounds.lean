import Fledger.GossipEvents.Restarts

namespace GossipEvents

namespace Events

variable [Sha256] {s : Events} {msg : Event} {rehash : HashMap.Rehash U256 Event}

-- What `insert` returns does not depend on the order of the map.
theorem insert_added_iff (h : s.Sound) :
    (s.insert rehash msg).2 = true ↔ msg.getId ∉ s.events ∧ ¬ s.Superseded msg := by
  obtain ⟨hk, hi⟩ | ⟨hk, hs, hi⟩ | ⟨hk, hs, hi⟩ := insert_cases h msg rehash <;> rw [hi]
  case inl     => exact ⟨fun ht => absurd ht Bool.false_ne_true, fun hn => absurd hk hn.left⟩
  case inr.inl => exact ⟨fun ht => absurd ht Bool.false_ne_true, fun hn => absurd hs hn.right⟩
  case inr.inr => exact ⟨fun _ => ⟨hk, hs⟩, fun _ => rfl⟩

theorem superseded_of_insert (h : s.Sound) (hs : (s.insert rehash msg).1.Superseded msg) :
    s.Superseded msg := by
  obtain ⟨hu, e, he, hsrc, hc⟩ := hs
  obtain ⟨i, hi⟩ := HashMap.mem_values.mp he
  refine ⟨config_insert h ▸ hu, e, ?_, hsrc, hc⟩
  cases lookup_of_lookup_insert h hi
  case inl hi => exact HashMap.mem_values.mpr ⟨i, hi⟩
  case inr he => exact absurd (he ▸ hc) (Int.lt_irrefl _)

end Events

namespace EventsStorage

variable [Sha256] {s : EventsStorage} {msg : Event} {rehash rehash' : HashMap.Rehash U256 Event}

-- The event fits, and it is not a superseded one whose id is unknown.
def Lasts (s : EventsStorage) (msg : Event) : Prop :=
  s.Fits msg ∧ ∀ evs, s.storage.lookup msg.category = some evs → evs.Superseded msg →
    msg.getId ∈ s.eventIds

-- The id of the event is known, and so it is never taken as new.
structure Settled (msg : Event) (s : EventsStorage) : Prop where
  wf      : s.Wf
  known   : msg.getId ∈ s.eventIds
  refused : ∀ rehash, (s.addEvent rehash msg).2 = false

theorem refused_iff {evs : Events} (h : s.Wf) (hl : s.storage.lookup msg.category = some evs) :
    (s.addEvent rehash msg).2 = false ↔ msg.getId ∈ evs.events ∨ evs.Superseded msg := by
  rw [addEvent_eq hl, ← Bool.not_eq_true, Events.insert_added_iff (h.events _ _ hl).sound]
  exact ⟨fun hn => by_contra fun hc => hn <| not_or.mp hc, fun hc hn => not_or.mpr hn hc⟩

theorem mem_eventIds_of_mem {evs : Events} (h : s.Wf)
    (hl : s.storage.lookup msg.category = some evs) (hm : msg.getId ∈ evs.events) :
    msg.getId ∈ s.eventIds := by
  obtain ⟨e, he⟩ := HashMap.mem_iff_lookup.mp hm
  have hw := h.events _ _ hl
  refine mem_eventIds h |>.mpr ⟨e, ⟨evs, ?_, ?_⟩, hw.keyed _ _ he⟩
  · rw [hw.category _ _ he, hl]
  · rw [hw.keyed _ _ he, he]

-- What was refused is refused again.
theorem Settled.addEvent (h : s.Settled msg) : (s.addEvent rehash msg).1.Settled msg := by
  obtain ⟨evs, hl⟩ := h.wf.lookup msg.category
  have hw : (s.addEvent rehash msg).1.Wf := h.wf.addEvent
  have hr := h.refused rehash
  have hl' : (s.addEvent rehash msg).1.storage.lookup msg.category = some evs := by
    rw [addEvent_eq hl] at hr ⊢
    rw [Events.insert_of_refused hr]
    exact AList.lookup_insert _
  refine ⟨hw, ?_, fun rehash' => refused_iff hw hl' |>.mpr <| refused_iff h.wf hl |>.mp hr⟩
  obtain ⟨e, he, hid⟩ := mem_eventIds h.wf |>.mp h.known
  exact mem_eventIds hw |>.mpr ⟨e, holds_addEvent_of_not_added h.wf hr |>.mpr he, hid⟩

theorem Lasts.settled (h : s.Wf) (hf : s.Lasts msg) : (s.addEvent rehash msg).1.Settled msg := by
  obtain ⟨evs, hl⟩ := h.lookup msg.category
  have hw : (s.addEvent rehash msg).1.Wf := h.addEvent
  cases ha : (s.addEvent rehash msg).2
  case true  =>
    have he := holds_addEvent_of_fits h hf.1 ha
    obtain ⟨evs', hl', he'⟩ := he
    have hm : msg.getId ∈ evs'.events := HashMap.mem_iff_lookup.mpr ⟨_, he'⟩
    exact ⟨hw, mem_eventIds_of_mem hw hl' hm, fun _ => refused_iff hw hl' |>.mpr <| .inl hm⟩
  case false =>
    have hs : s.Settled msg := by
      have hr := refused_iff h hl |>.mp ha
      refine ⟨h, ?_, fun _ => refused_iff h hl |>.mpr hr⟩
      cases hr
      case inl hm => exact mem_eventIds_of_mem h hl hm
      case inr hs => exact hf.2 evs hl hs
    exact hs.addEvent

-- An event which does not fit can be taken as new again and again.
theorem added_again (h : s.Wf) (hf : ¬ s.Fits msg) :
    ((s.addEvent .reverse msg).1.addEvent rehash msg).2 = true := by
  obtain ⟨evs, hl⟩ := h.lookup msg.category
  have hw := (h.events _ _ hl).sound
  have hw' : (s.addEvent .reverse msg).1.Wf := h.addEvent
  obtain ⟨ha, hn⟩ := added_of_not_fits h hf
  have hl' : (s.addEvent .reverse msg).1.storage.lookup msg.category =
      some (evs.insert .reverse msg).1 := by
    rw [addEvent_eq hl]
    exact AList.lookup_insert _
  by_contra hr
  rcases refused_iff hw' hl' |>.mp <| Bool.eq_false_iff.mpr hr with hm | hs
  case inl =>
    obtain ⟨e, he⟩ := HashMap.mem_iff_lookup.mp hm
    rw [addEvent_eq hl, Events.insert_added_iff hw] at ha
    cases Events.lookup_of_lookup_insert hw he
    case inl he => exact ha.1 <| HashMap.mem_iff_lookup.mpr ⟨e, he⟩
    case inr hm => exact hn ⟨_, hl', hm ▸ he⟩
  case inr =>
    rw [addEvent_eq hl, Events.insert_added_iff hw] at ha
    exact ha.2 <| Events.superseded_of_insert hw hs

end EventsStorage

namespace Messages

open EventsStorage

variable [Sha256] [Yaml EventsStorage] {m m' : Messages} {env : Env} {i : GossipIn} {e : Event}

-- The node asks for the event, or it announces it as a new one.
def Repeats (e : Event) (i : GossipIn) (out : List GossipOut) : Prop :=
  (∃ dst ids, .toNetwork dst (.requestEvents ids) ∈ out ∧ e.getId ∈ ids) ∨
  .newEvent e ∈ out ∨
  i.carried ≠ [] ∧ ∃ dst ids, .toNetwork dst (.knownEventIDs ids) ∈ out ∧ e.getId ∈ ids

-- Nothing but the event `e` comes in, as often as one likes: it is named and brought by other
-- nodes, ticks go by, other nodes ask for something.
inductive Hears (e : Event) : Messages → Messages → Prop
  | refl (m : Messages) : Hears e m m
  | step {m m' : Messages} (env : Env) {i : GossipIn} (only : ∀ e' ∈ i.carried, e' = e) :
    Hears e m m' → Hears e m (m'.processMessage env i).1

-- Once it has come in, the event is neither asked for nor announced any more, in no round.
def Settles (m : Messages) (e : Event) : Prop :=
  ∀ env src m', Hears e (m.processMessage env (.fromNetwork src (.events [e]))).1 m' →
    ∀ env' i, (∀ e' ∈ i.carried, e' = e) → ¬ Repeats e i (m'.processMessage env' i).2

omit [Yaml EventsStorage] in
theorem settled_addEvents {es : List Event} (h : m.events.Settled e) (hes : ∀ e' ∈ es, e' = e) :
    (m.addEvents env es).1.events.Settled e ∧ (m.addEvents env es).2 = [] := by
  induction es generalizing m env
  case nil           => exact ⟨h, rfl⟩
  case cons e' es hi =>
    cases hes e' List.mem_cons_self
    have ha : (m.takeEvent env e).events.Settled e := h.addEvent
    rw [addEvents_cons_fst, addEvents_cons_snd, h.refused (env 0)]
    exact hi ha fun f hf => hes f <| List.mem_cons_of_mem _ hf

theorem Hears.settled (hh : Hears e m m') (h : m.events.Settled e) : m'.events.Settled e := by
  induction hh
  case refl                  => exact h
  case step env i only _ hi =>
    rw [events_processMessage]
    exact settled_addEvents hi only |>.1

omit [Yaml EventsStorage] in
theorem not_repeats_sendEvents {src : NodeID} {m : Messages} :
    ¬ Repeats e i (m.sendEvents src []) := by
  have hm {o : GossipOut} (ho : o ∈ m.sendEvents src []) :
      ∃ n, o = .toNetwork n (.knownEventIDs []) := by
    rcases mem_sendEvents.mp ho with ⟨n, _, _, _, rfl⟩ | ⟨_, hm, _⟩
    case inl => exact ⟨n, rfl⟩
    case inr => cases hm
  rintro (⟨_, _, ho, _⟩ | ho | ⟨_, _, _, ho, hid⟩)
  all_goals
    obtain ⟨_, ho⟩ := hm ho
    cases ho
  cases hid

omit [Yaml EventsStorage] in
theorem not_repeats_of_silent {out : List GossipOut} (hc : i.carried = [])
    (h : ∀ dst msg, .toNetwork dst msg ∈ out → ∀ ids, msg ≠ .requestEvents ids)
    (hn : ∀ e, .newEvent e ∉ out) : ¬ Repeats e i out := by
  rintro (⟨_, _, ho, _⟩ | ho | ⟨hi, _⟩)
  · exact h _ _ ho _ rfl
  · exact hn _ ho
  · exact hi hc

omit [Yaml EventsStorage] in
theorem not_repeats_requestEventIDs (hc : i.carried = []) (nodes : List NodeID) :
    ¬ Repeats e i (nodes.map (.toNetwork · .requestEventIDs)) := by
  refine not_repeats_of_silent hc (fun _ _ ho => ?_) fun _ ho => ?_
  all_goals
    obtain ⟨_, _, ho⟩ := List.mem_map.mp ho
    cases ho
  exact fun _ hr => by cases hr

theorem not_repeats_of_settled (h : m.events.Settled e) (hi : ∀ e' ∈ i.carried, e' = e) :
    ¬ Repeats e i (m.processMessage env i).2 := by
  cases i
  case tick                =>
    simp only [processMessage]
    split
    case isFalse => exact not_repeats_requestEventIDs rfl []
    case isTrue  => exact not_repeats_requestEventIDs rfl m.nodes
  case updateNodeList ids  => exact not_repeats_requestEventIDs rfl _
  case addEvent e'         =>
    cases hi e' <| List.mem_singleton_self e'
    simp only [processMessage, addEvent, h.refused (env 0)]
    rintro (⟨_, _, ho, _⟩ | ho | ⟨_, _, _, ho, _⟩) <;> cases ho
  case fromNetwork src msg =>
    cases msg
    case requestEventIDs   =>
      refine not_repeats_of_silent rfl (fun _ _ ho => ?_) fun _ ho => ?_
      all_goals cases List.mem_singleton.mp ho
      exact fun _ hr => by cases hr
    case requestEvents ids =>
      simp only [processMessage, processNodeMessage]
      refine not_repeats_of_silent rfl (fun _ _ ho => ?_) fun _ ho => ?_
      case refine_1 =>
        rw [(toNetwork_nodeRequestEvents ho).2]
        exact fun _ hr => by cases hr
      case refine_2 =>
        simp only [nodeRequestEvents] at ho
        split at ho
        case isTrue  => cases List.mem_singleton.mp ho
        case isFalse => cases ho
    case knownEventIDs ids =>
      simp only [processMessage, processNodeMessage, nodeKnownEventIds]
      split
      case isFalse =>
        exact not_repeats_of_silent rfl (fun _ _ ho => by cases ho) fun _ ho => by cases ho
      case isTrue  =>
        rintro (⟨_, _, ho, hid⟩ | ho | ⟨hc, _⟩)
        · cases List.mem_singleton.mp ho
          have hn := of_decide_eq_true (List.mem_filter.mp hid).2
          exact hn.1 h.known
        · cases List.mem_singleton.mp ho
        · exact hc rfl
    case events es         =>
      simp only [processMessage, processNodeMessage, nodeEvents]
      have hs : (m.addEvents env es).2 = [] := (settled_addEvents h hi).2
      rw [hs]
      exact not_repeats_sendEvents

theorem repeats_of_added (ha : (m.events.addEvent (env 0) e).2 = true) :
    Repeats e (.addEvent e) (m.processMessage env (.addEvent e)).2 := by
  simp only [processMessage, addEvent, ha, if_true]
  exact .inr <| .inl <| mem_sendEvents.mpr <| .inr ⟨e, List.mem_singleton_self e, rfl⟩

theorem repeats_of_unknown {src : NodeID} (hk : e.getId ∉ m.events.eventIds)
    (ho : e.getId ∉ m.outstanding) :
    Repeats e (.fromNetwork src (.knownEventIDs [e.getId]))
      (m.processMessage env (.fromNetwork src (.knownEventIDs [e.getId]))).2 := by
  have hf : m.filterKnownEvents [e.getId] = [e.getId] := by
    refine List.filter_eq_self.mpr fun id hid => ?_
    rw [List.mem_singleton.mp hid]
    exact decide_eq_true ⟨hk, ho⟩
  simp only [processMessage, processNodeMessage, nodeKnownEventIds, hf]
  exact .inl ⟨src, _, List.mem_singleton_self _, List.mem_singleton_self _⟩

theorem not_mem_outstanding {src : NodeID} :
    e.getId ∉ (m.processMessage env (.fromNetwork src (.events [e]))).1.outstanding := by
  have hn : e.getId ∉ (m.addEvents env [e]).1.outstanding := fun hm =>
    (addEvents_frame m env [e]).2.2.2 _ hm |>.2 <| List.mem_singleton_self _
  simp only [processMessage, processNodeMessage, nodeEvents]
  split
  case isTrue  => rwa [store_outstanding]
  case isFalse => exact hn

-- Exactly the events which last are left alone in all later rounds.
theorem settles_iff (h : m.events.Wf) : m.Settles e ↔ m.events.Lasts e := by
  have hev (env : Env) : (m.processMessage env (.fromNetwork .zero (.events [e]))).1.events =
      (m.events.addEvent (env 0) e).1 := events_processMessage m env _
  have honly : ∀ e' ∈ [e], e' = e := fun _ hm => List.mem_singleton.mp hm
  constructor
  case mpr =>
    intro hl env src m' hh env' i hi
    refine not_repeats_of_settled (hh.settled ?_) hi
    rw [events_processMessage]
    exact hl.settled h
  case mp  =>
    intro hs
    constructor
    case left  =>
      by_contra hf
      have ha : ((m.events.addEvent .reverse e).1.addEvent .same e).2 = true := added_again h hf
      rw [← hev fun _ => .reverse] at ha
      exact hs _ _ _ (.refl _) (fun _ => .same) (.addEvent e) honly <| repeats_of_added ha
    case right =>
      intro evs hl hsup
      by_contra hk
      have hr : (m.events.addEvent .same e).2 = false := refused_iff h hl |>.mpr <| .inr hsup
      have hw : (m.events.addEvent .same e).1.Wf := h.addEvent
      have hk' : e.getId ∉ (m.events.addEvent .same e).1.eventIds := by
        intro hm
        obtain ⟨f, hf, hid⟩ := mem_eventIds hw |>.mp hm
        exact hk <| mem_eventIds h |>.mpr ⟨f, holds_addEvent_of_not_added h hr |>.mp hf, hid⟩
      rw [← hev fun _ => .same] at hk'
      refine hs (fun _ => .same) .zero _ (.refl _) (fun _ => .same)
        (.fromNetwork .zero (.knownEventIDs [e.getId])) ?_ <|
        repeats_of_unknown hk' not_mem_outstanding
      exact fun _ hm => absurd hm List.not_mem_nil

-- What `add_event` returns is right, and what is announced is there, if and only if the event fits;
-- and it is neither asked for nor announced again, too, if and only if it lasts.
theorem tells_and_backs_iff (h : m.events.Reachable) (e : Event) :
    ((∀ rehash, Tells rehash m.events e) ↔ m.events.Fits e) ∧
    ((∀ env, (m.addEvent env e).1.Backs (m.addEvent env e).2) ↔ m.events.Fits e) ∧
    ((∀ rehash, Tells rehash m.events e) ∧
      (∀ env, (m.addEvent env e).1.Backs (m.addEvent env e).2) ∧ m.Settles e ↔
        m.events.Lasts e) ∧
    ∀ env i, m.FitsIn env i → (m.processMessage env i).1.Backs (m.processMessage env i).2 := by
  have ht : (∀ rehash, Tells rehash m.events e) ↔ m.events.Fits e := tells_iff_fits h.wf
  have hb : (∀ env, (m.addEvent env e).1.Backs (m.addEvent env e).2) ↔ m.events.Fits e := by
    refine ⟨fun hb => ?_, fun hf _ => backs_addEvent h.wf hf⟩
    by_contra hf
    exact not_backs_addEvent h.wf hf <| hb _
  refine ⟨ht, hb, ?_, fun env i hf => backs_processMessage h.wf hf⟩
  rw [ht, hb, settles_iff h.wf]
  exact ⟨fun hc => hc.2.2, fun hl => ⟨hl.1, hl.1, hl⟩⟩

end Messages

section Concrete

open EventsStorage

attribute [local instance] Sha256.rolling unsaved

theorem lasts_sampleText : sampleMessages.events.Lasts (sampleText 0) := by
  refine ⟨fits_new, fun evs hl hs => ?_⟩
  cases hl
  cases hs.1

theorem tells_and_backs_iff_sampleMessages :
    (∀ rehash, Tells rehash sampleMessages.events (sampleText 0)) ∧
    sampleMessages.Settles (sampleText 0) ∧
    ∀ env, (sampleMessages.processMessage env (.fromNetwork .zero (.events [sampleText 0]))).1.Backs
      (sampleMessages.processMessage env (.fromNetwork .zero (.events [sampleText 0]))).2 := by
  have h := Messages.tells_and_backs_iff (m := sampleMessages) .new (sampleText 0)
  have hl := h.2.2.1.mpr lasts_sampleText
  have hn : ∀ a ∈ ([] : List Event), sampleMessages.events.Spares (sampleText 0) a :=
    fun _ hm => absurd hm List.not_mem_nil
  exact ⟨hl.1, hl.2.2, fun env => h.2.2.2 env _ ⟨fits_new, hn, trivial⟩⟩

def fullStorage : EventsStorage :=
  (List.range 50).foldl (fun s i => (s.addEvent .same (sampleText (i + 1))).1) .new

instance {s : EventsStorage} {e : Event} : Decidable (s.Holds e) :=
  decidable_of_iff ((s.storage.lookup e.category).bind (·.events.lookup e.getId) = some e) <| by
    simp [Holds, Option.bind_eq_some_iff]

-- An event which is older than the fifty stored ones is reported as new, but it is not stored.
theorem fullStorage_tells_wrong :
    fullStorage.Reachable ∧ (fullStorage.addEvent .same (sampleText 0)).2 = true ∧
      ¬ (fullStorage.addEvent .same (sampleText 0)).1.Holds (sampleText 0) := by
  have hr (is : List Nat) (s : EventsStorage) (h : s.Reachable) :
      (is.foldl (fun s i => (s.addEvent .same (sampleText (i + 1))).1) s).Reachable := by
    induction is generalizing s
    case nil          => exact h
    case cons i is hi => exact hi _ <| h.addEvent ..
  exact ⟨hr (List.range 50) .new .new, by decide +kernel⟩

end Concrete

end GossipEvents
