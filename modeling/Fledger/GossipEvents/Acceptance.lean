import Fledger.Crypto.Concrete
import Fledger.GossipEvents.Storage

namespace List

-- Sorting is stable: what comes last and may stay there does so.
theorem insertionSort_concat {α : Type*} {r : α → α → Prop} [DecidableRel r] {l : List α} {x : α}
    (h : ∀ a ∈ l, r a x) : (l ++ [x]).insertionSort r = l.insertionSort r ++ [x] := by
  have ho (a : α) (ha : r a x) (l : List α) :
      (l ++ [x]).orderedInsert r a = l.orderedInsert r a ++ [x] := by
    induction l
    case nil         => simp [ha]
    case cons b l hi =>
      rw [cons_append, orderedInsert_cons, orderedInsert_cons, hi]
      split <;> rfl
  induction l
  case nil         => rfl
  case cons a l hi =>
    have hi := hi fun b hb => h b (mem_cons_of_mem _ hb)
    rw [cons_append, insertionSort_cons, insertionSort_cons, hi, ho a (h a mem_cons_self)]

theorem eq_of_mem_of_length_le_one {α : Type*} {l : List α} {a b : α} (h : l.length ≤ 1)
    (ha : a ∈ l) (hb : b ∈ l) : a = b := by
  cases l
  case nil => cases ha
  case cons c l =>
    have hl : l = [] := List.length_eq_zero_iff.mp <| by simpa using h
    rw [hl, mem_singleton] at ha hb
    rw [ha, hb]

end List

namespace GossipEvents

namespace Events

variable [Sha256] {s : Events} {msg e : Event} {rehash : HashMap.Rehash U256 Event}

-- There is room for the new event, or an event which is older than `e` has to leave.
def Stays (s : Events) (msg e : Event) : Prop :=
  (s.rivals msg).length < s.config.maxEvents ∨ ∃ f ∈ msg :: s.rivals msg, f.created < e.created

def Fits (s : Events) (msg : Event) : Prop :=
  msg.getId ∈ s.events ∨ s.Superseded msg ∨ s.Stays msg msg

-- The stored event `e` is not lost when `msg` comes in.
def Spares (s : Events) (msg e : Event) : Prop :=
  msg.getId ∈ s.events ∨ s.Superseded msg ∨
    ((s.config.unique → e.src ≠ msg.src) ∧ s.Stays msg e)

omit [Sha256] in
theorem length_rivals_le_keys : (s.rivals msg).length ≤ s.events.keys.length := by
  have hv : (HashMap.values s.events).length = s.events.keys.length := by
    rw [HashMap.values, AList.keys, List.keys, List.length_map, List.length_map]
  exact hv ▸ List.length_filter_le ..

theorem length_rivals (msg : Event) (h : s.Sound) : (s.rivals msg).length ≤ s.config.maxEvents :=
  length_rivals_le_keys.trans h.bounded

theorem mem_pairs_placed (h : s.Sound) (hk : msg.getId ∉ s.events) (he : e ∈ msg :: s.rivals msg) :
    (e.getId, e) ∈ HashMap.pairs (s.placed rehash msg).events := by
  rw [HashMap.mem_pairs, lookup_placed h]
  cases List.mem_cons.mp he
  case inl he => exact .inl ⟨he ▸ rfl, he⟩
  case inr he =>
    have ⟨i, hi, hs⟩ := mem_rivals.mp he
    have hi : s.events.lookup e.getId = some e := h.keyed _ _ hi ▸ hi
    refine .inr ⟨fun hm => hk ?_, hi, hs⟩
    exact hm ▸ HashMap.mem_iff_lookup.mpr ⟨e, hi⟩

omit [Sha256] in
-- With an event, all older ones leave.
theorem mem_drop_of_older {n : Nat} {p q : U256 × Event}
    (hp : p ∈ ((HashMap.pairs s.events).insertionSort Newer).drop n)
    (hq : q ∈ HashMap.pairs s.events) (hc : q.2.created < p.2.created) :
    q ∈ ((HashMap.pairs s.events).insertionSort Newer).drop n := by
  have hq := (List.mem_insertionSort Newer).mpr hq
  have hs := List.pairwise_insertionSort Newer (HashMap.pairs s.events)
  rw [← List.take_append_drop n (List.insertionSort ..)] at hq hs
  cases List.mem_append.mp hq
  case inl ht => exact absurd ((List.pairwise_append.mp hs).2.2 _ ht _ hp) (Int.not_le.mpr hc)
  case inr hd => exact hd

-- At most one event has to leave, and it is the oldest one.
theorem lookup_limit_of_stays (h : s.Sound) (hk : msg.getId ∉ s.events)
    (hp : (s.placed rehash msg).events.lookup e.getId = some e) (hs : s.Stays msg e) :
    (s.placed rehash msg).limit.events.lookup e.getId = some e := by
  have hc : (s.placed rehash msg).config = s.config := config_freed
  have hl := length_placed rehash h hk
  cases hs
  case inl hr =>
    rwa [limit_of_length]
    rw [hl, hc]
    exact hr
  case inr hf =>
    have ⟨f, hm, hf⟩ := hf
    rw [lookup_limit, if_neg, hp]
    intro hd
    have ⟨⟨i, e'⟩, hd, hi⟩ := List.mem_map.mp hd
    cases hi
    have he : e' = e := by
      have he := HashMap.mem_pairs.mp <| (List.mem_insertionSort _).mp <| List.mem_of_mem_drop hd
      exact Option.some.inj <| he.symm.trans hp
    have hfd := mem_drop_of_older hd (mem_pairs_placed h hk hm) (he ▸ hf)
    have hr := length_rivals msg h
    have hone : ((HashMap.pairs (s.placed rehash msg).events).insertionSort Newer |>.drop
        (s.placed rehash msg).config.maxEvents).length ≤ 1 := by
      rw [List.length_drop, List.length_insertionSort, length_pairs, hl, hc]
      omega
    have hef : e' = f := congrArg Prod.snd <| List.eq_of_mem_of_length_le_one hone hd hfd
    rw [← hef, he] at hf
    exact Int.lt_irrefl _ hf

-- In the worst order the new event is the last one of its age.
theorem lookup_limit_of_not_stays (h : s.Sound) (hk : msg.getId ∉ s.events)
    (hs : ¬ s.Stays msg msg) :
    (s.placed HashMap.Rehash.reverse msg).limit.events.lookup msg.getId = none := by
  have ⟨others, ho⟩ : ∃ others,
      HashMap.pairs (s.placed .reverse msg).events = others ++ [(msg.getId, msg)] := by
    simp only [placed, HashMap.pairs, HashMap.Rehash.reverse, AList.entries_insert,
      List.reverse_cons, List.map_append, List.map_singleton]
    exact ⟨_, rfl⟩
  have hl := length_placed .reverse h hk
  rw [← length_pairs, ho, List.length_append, List.length_singleton] at hl
  have hn : ∀ p ∈ others, Newer p (msg.getId, msg) := by
    intro p hp
    have hp : p ∈ HashMap.pairs (s.placed .reverse msg).events := ho ▸ List.mem_append_left _ hp
    cases (lookup_placed h).mp <| HashMap.mem_pairs.mp hp
    case inl he => exact Int.le_of_eq (congrArg _ he.right.symm)
    case inr he =>
      have hr := mem_rivals.mpr ⟨_, he.right⟩
      exact Int.not_lt.mp fun hc => hs <| .inr ⟨_, List.mem_cons_of_mem _ hr, hc⟩
  have hm : others.length = (s.placed .reverse msg).config.maxEvents := by
    have hf : s.config.maxEvents ≤ (s.rivals msg).length := Nat.not_lt.mp fun hr => hs <| .inl hr
    have hr := length_rivals msg h
    have hc : (s.placed .reverse msg).config = s.config := config_freed
    rw [hc]
    omega
  rw [lookup_limit, if_pos]
  rw [dropped, ho, List.insertionSort_concat hn, List.drop_append_of_le_length,
    List.drop_of_length_le]
  · simp
  · simp [hm]
  · simp [hm]

theorem lookup_insert_of_spares (h : s.Sound) (he : s.events.lookup e.getId = some e)
    (hs : s.Spares msg e) : (s.insert rehash msg).1.events.lookup e.getId = some e := by
  obtain ⟨_, hi⟩ | ⟨_, _, hi⟩ | ⟨hk, hn, hi⟩ := insert_cases h msg rehash
  · rwa [hi]
  · rwa [hi]
  · rw [hi]
    obtain hs | hs | ⟨hu, hs⟩ := hs
    · exact (hk hs).elim
    · exact (hn hs).elim
    · have hm : e.getId ≠ msg.getId := fun hm => hk <| HashMap.mem_iff_lookup.mpr ⟨e, hm ▸ he⟩
      exact lookup_limit_of_stays h hk ((lookup_placed h).mpr <| .inr ⟨hm, he, hu⟩) hs

end Events

namespace EventsStorage

variable [Sha256] {s : EventsStorage} {msg e : Event} {rehash : HashMap.Rehash U256 Event}

-- What `add_event` returns is right.
def Tells (rehash : HashMap.Rehash U256 Event) (s : EventsStorage) (msg : Event) : Prop :=
  (s.addEvent rehash msg).2 = true ↔ (s.addEvent rehash msg).1.Holds msg ∧ ¬ s.Holds msg

def Fits (s : EventsStorage) (msg : Event) : Prop :=
  ∀ evs, s.storage.lookup msg.category = some evs → evs.Fits msg

def Spares (s : EventsStorage) (msg e : Event) : Prop :=
  e.category = msg.category → ∀ evs, s.storage.lookup msg.category = some evs → evs.Spares msg e

theorem holds_addEvent_self {evs : Events} (he : s.storage.lookup msg.category = some evs) :
    (s.addEvent rehash msg).1.Holds msg ↔
      (evs.insert rehash msg).1.events.lookup msg.getId = some msg := by
  rw [holds_addEvent he, if_pos rfl]

theorem holds_addEvent_of_fits (h : s.Wf) (hf : s.Fits msg)
    (ht : (s.addEvent rehash msg).2 = true) : (s.addEvent rehash msg).1.Holds msg := by
  have ⟨evs, he⟩ := h.lookup msg.category
  have hw := (h.events _ _ he).sound
  rw [addEvent_eq he] at ht
  rw [holds_addEvent_self he]
  obtain ⟨_, hi⟩ | ⟨_, _, hi⟩ | ⟨hk, hn, hi⟩ := Events.insert_cases hw msg rehash
  · cases hi ▸ ht
  · cases hi ▸ ht
  · rw [hi]
    obtain hs | hs | hs := hf evs he
    · exact (hk hs).elim
    · exact (hn hs).elim
    · exact Events.lookup_limit_of_stays hw hk ((Events.lookup_placed hw).mpr <| .inl ⟨rfl, rfl⟩) hs

theorem not_holds_of_added (h : s.Wf) (ht : (s.addEvent rehash msg).2 = true) : ¬ s.Holds msg := by
  have ⟨evs, he⟩ := h.lookup msg.category
  rw [addEvent_eq he] at ht
  rw [holds_iff he]
  obtain ⟨_, hi⟩ | ⟨_, _, hi⟩ | ⟨hk, _, hi⟩ :=
    Events.insert_cases (h.events _ _ he).sound msg rehash
  · cases hi ▸ ht
  · cases hi ▸ ht
  · exact fun hl => hk <| HashMap.mem_iff_lookup.mpr ⟨_, hl⟩

-- What is refused leaves the storage as it is.
theorem holds_addEvent_of_not_added (h : s.Wf) (ht : (s.addEvent rehash msg).2 = false) :
    (s.addEvent rehash msg).1.Holds e ↔ s.Holds e := by
  have ⟨evs, he⟩ := h.lookup msg.category
  rw [holds_addEvent he]
  rw [addEvent_eq he] at ht
  split
  case isFalse => rfl
  case isTrue hc =>
    rw [holds_iff (hc ▸ he)]
    obtain ⟨_, hi⟩ | ⟨_, _, hi⟩ | ⟨_, _, hi⟩ :=
      Events.insert_cases (h.events _ _ he).sound msg rehash
    · rw [hi]
    · rw [hi]
    · cases hi ▸ ht

-- An event which does not fit is announced as new, and is lost at once.
theorem added_of_not_fits (h : s.Wf) (hf : ¬ s.Fits msg) :
    (s.addEvent .reverse msg).2 = true ∧ ¬ (s.addEvent .reverse msg).1.Holds msg := by
  have ⟨evs, he⟩ := h.lookup msg.category
  have hw := (h.events _ _ he).sound
  have hf : ¬ evs.Fits msg := by
    intro hf'
    refine hf fun evs' he' => ?_
    rwa [Option.some.inj <| he'.symm.trans he]
  rw [holds_addEvent_self he, addEvent_eq he]
  obtain ⟨hk, _⟩ | ⟨_, hs, _⟩ | ⟨hk, _, hi⟩ := Events.insert_cases hw msg .reverse
  · exact (hf <| .inl hk).elim
  · exact (hf <| .inr <| .inl hs).elim
  · rw [hi, Events.lookup_limit_of_not_stays hw hk fun hs => hf <| .inr <| .inr hs]
    exact ⟨rfl, by simp⟩

theorem tells_iff_fits (h : s.Wf) : (∀ rehash, Tells rehash s msg) ↔ s.Fits msg := by
  constructor
  case mp =>
    intro ht
    by_contra hf
    have ⟨ha, hn⟩ := added_of_not_fits h hf
    exact hn (ht .reverse |>.mp ha).left
  case mpr =>
    intro hf rehash
    constructor
    case mp  => exact fun ht => ⟨holds_addEvent_of_fits h hf ht, not_holds_of_added h ht⟩
    case mpr =>
      intro ⟨hh, hn⟩
      by_contra ht
      exact hn <| holds_addEvent_of_not_added h (Bool.eq_false_iff.mpr ht) |>.mp hh

theorem holds_addEvent_of_spares (h : s.Wf) (he : s.Holds e) (hs : s.Spares msg e) :
    (s.addEvent rehash msg).1.Holds e := by
  have ⟨evs, hl⟩ := h.lookup msg.category
  rw [holds_addEvent hl]
  split
  case isFalse => exact he
  case isTrue hc =>
    have he := (holds_iff (hc ▸ hl)).mp he
    exact Events.lookup_insert_of_spares (h.events _ _ hl).sound he <| hs hc _ hl

-- In its turn, each event of a message fits, and no event of the message which was taken before is
-- lost.
def FitAll (s : EventsStorage) (env : Env) (taken : List Event) : List Event → Prop
  | []      => True
  | e :: es =>
    let (events, added) := s.addEvent (env 0) e
    s.Fits e ∧ (∀ a ∈ taken, s.Spares e a) ∧
      events.FitAll env.next (if added then e :: taken else taken) es

theorem fitAll_cons {env : Env} {taken es : List Event} :
    s.FitAll env taken (e :: es) ↔
      s.Fits e ∧ (∀ a ∈ taken, s.Spares e a) ∧ (s.addEvent (env 0) e).1.FitAll env.next
        (if (s.addEvent (env 0) e).2 then e :: taken else taken) es :=
  .rfl

end EventsStorage

namespace Messages

open EventsStorage

variable [Sha256] [Yaml EventsStorage] {m : Messages} {env : Env} {e : Event} {src : NodeID}

-- What is announced is there.
def Backs (m : Messages) (out : List GossipOut) : Prop :=
  (∀ e, .newEvent e ∈ out → m.events.Holds e) ∧
  ∀ dst ids, .toNetwork dst (.knownEventIDs ids) ∈ out →
    ∀ id ∈ ids, ∃ e, m.events.Holds e ∧ e.getId = id

def FitsIn (m : Messages) (env : Env) : GossipIn → Prop
  | .addEvent e                 => m.events.Fits e
  | .fromNetwork _ (.events es) => m.events.FitAll env [] es
  | _                           => True

omit [Yaml EventsStorage] in
theorem backs_nil : m.Backs [] :=
  ⟨nofun, nofun⟩

omit [Yaml EventsStorage] in
theorem backs_sendEvents {m' : Messages} {events : List Event}
    (h : ∀ e ∈ events, m'.events.Holds e) : m'.Backs (m.sendEvents src events) := by
  constructor
  case left =>
    intro e he
    cases mem_sendEvents.mp he
    case inl hn =>
      have ⟨_, _, _, _, ho⟩ := hn
      cases ho
    case inr hn =>
      have ⟨_, hm, ho⟩ := hn
      cases ho
      exact h _ hm
  case right =>
    intro dst ids hi id hid
    cases mem_sendEvents.mp hi
    case inl hn =>
      have ⟨_, _, _, _, ho⟩ := hn
      cases ho
      have ⟨e, he, hid⟩ := List.mem_filterMap.mp hid
      split at hid
      case isTrue  => exact ⟨e, h e he, Option.some.inj hid⟩
      case isFalse => cases hid
    case inr hn =>
      have ⟨_, _, ho⟩ := hn
      cases ho

omit [Yaml EventsStorage] in
theorem holds_addEvents {taken es : List Event} (h : m.events.Wf)
    (ht : ∀ a ∈ taken, m.events.Holds a) (hf : m.events.FitAll env taken es) :
    ∀ a ∈ taken ++ (m.addEvents env es).2, (m.addEvents env es).1.events.Holds a := by
  induction es generalizing m env taken
  case nil => simpa [addEvents] using ht
  case cons e es hi =>
    have ⟨hfe, hs, hf⟩ := fitAll_cons.mp hf
    have hw : (m.events.addEvent (env 0) e).1.Wf := h.addEvent
    have ht' : ∀ a ∈ taken, (m.events.addEvent (env 0) e).1.Holds a :=
      fun a ha => holds_addEvent_of_spares h (ht a ha) (hs a ha)
    rw [addEvents_cons_fst, addEvents_cons_snd]
    cases ha : (m.events.addEvent (env 0) e).2
    case false =>
      rw [ha] at hf
      exact hi (m := m.takeEvent env e) hw ht' hf
    case true =>
      rw [ha] at hf
      have hn : ∀ a ∈ e :: taken, (m.takeEvent env e).events.Holds a := by
        intro a hm
        cases List.mem_cons.mp hm
        case inl hm =>
          cases hm
          exact holds_addEvent_of_fits h hfe ha
        case inr hm => exact ht' a hm
      intro a hm
      apply hi (m := m.takeEvent env e) hw hn hf
      rw [if_pos rfl] at hm
      exact List.perm_middle.mem_iff.mp hm

omit [Yaml EventsStorage] in
theorem backs_events {m' : Messages} {out : List GossipOut} (he : m'.events = m.events) :
    m'.Backs out ↔ m.Backs out := by
  unfold Backs
  rw [he]

theorem backs_addEvent (h : m.events.Wf) (hf : m.events.Fits e) :
    (m.addEvent env e).1.Backs (m.addEvent env e).2 := by
  cases ha : (m.events.addEvent (env 0) e).2
  case false =>
    simp only [addEvent, ha]
    exact backs_nil
  case true =>
    simp only [addEvent, ha, if_true]
    refine backs_sendEvents fun a hm => ?_
    cases List.mem_singleton.mp hm
    rw [store_events]
    exact holds_addEvent_of_fits h hf ha

-- An event which is lost at once is announced nevertheless.
theorem not_backs_addEvent (h : m.events.Wf) (hf : ¬ m.events.Fits e) :
    ¬ (m.addEvent (fun _ => .reverse) e).1.Backs (m.addEvent (fun _ => .reverse) e).2 := by
  have ⟨ha, hn⟩ := added_of_not_fits h hf
  intro hb
  simp only [addEvent, ha, if_true] at hb
  have hb := hb.left e <| mem_sendEvents.mpr <| .inr ⟨e, List.mem_singleton_self e, rfl⟩
  rw [store_events] at hb
  exact hn hb

theorem backs_nodeEvents {events : List Event} (h : m.events.Wf)
    (hf : m.events.FitAll env [] events) :
    (m.nodeEvents env src events).1.Backs (m.nodeEvents env src events).2 := by
  have hb : (m.addEvents env events).1.Backs
      ((m.addEvents env events).1.sendEvents src (m.addEvents env events).2) :=
    backs_sendEvents <| holds_addEvents h (List.forall_mem_nil _) hf
  simp only [nodeEvents]
  split
  case isTrue  => exact (backs_events store_events).mpr hb
  case isFalse => exact hb

omit [Yaml EventsStorage] in
theorem backs_nodeRequestEventList (h : m.events.Wf) : m.Backs (m.nodeRequestEventList src) := by
  constructor
  case left => exact nofun
  case right =>
    intro dst ids hi id hid
    cases List.mem_singleton.mp hi
    exact (mem_eventIds h).mp hid

-- Requests and events announce nothing.
def Silent : GossipOut → Prop
  | .toNetwork _ (.knownEventIDs _) => False
  | .toNetwork _ _                  => True
  | .newEvent _                     => False

omit [Yaml EventsStorage] in
theorem backs_of_silent {out : List GossipOut} (h : ∀ o ∈ out, Silent o) : m.Backs out :=
  ⟨fun _ he => (h _ he).elim, fun _ _ hi => (h _ hi).elim⟩

theorem backs_processMessage {i : GossipIn} (h : m.events.Wf) (hf : m.FitsIn env i) :
    (m.processMessage env i).1.Backs (m.processMessage env i).2 := by
  have hr {ids : List NodeID} :
      ∀ o ∈ ids.map (GossipOut.toNetwork · .requestEventIDs), Silent o := by
    intro o ho
    have ⟨_, _, ho⟩ := List.mem_map.mp ho
    exact ho ▸ trivial
  cases i
  case addEvent e         => exact backs_addEvent h hf
  case updateNodeList ids => exact backs_of_silent hr
  case tick =>
    simp only [processMessage]
    split
    case isTrue  => exact backs_of_silent hr
    case isFalse => exact backs_nil
  case fromNetwork src msg =>
    cases msg
    case events events     => exact backs_nodeEvents h hf
    case requestEventIDs   => exact backs_nodeRequestEventList h
    case knownEventIDs ids =>
      simp only [processMessage, processNodeMessage, nodeKnownEventIds]
      split
      case isTrue  => exact backs_of_silent <| List.forall_mem_singleton.mpr trivial
      case isFalse => exact backs_nil
    case requestEvents ids =>
      simp only [processMessage, processNodeMessage, nodeRequestEvents]
      split
      case isTrue  => exact backs_of_silent <| List.forall_mem_singleton.mpr trivial
      case isFalse => exact backs_nil

end Messages

section Concrete

open EventsStorage

attribute [local instance] Sha256.rolling

abbrev unsaved : Yaml EventsStorage where
  toString _ := none
  fromStr _  := none

attribute [local instance] unsaved

def sampleText (created : Int) : Event where
  category := .textMessage
  src      := .zero
  created  := created
  msg      := "The quick brown fox jumps over"

def sampleMessages : Messages :=
  .new .zero ∅

theorem fits_new {msg : Event} : EventsStorage.new.Fits msg := by
  intro evs he
  have hw := wf_new.events _ _ he
  refine .inr <| .inr <| .inl ?_
  have hr : evs.rivals msg = [] := by
    cases hc : msg.category <;> rw [hc] at he <;> cases he <;> rfl
  rw [hr]
  cases hc : msg.category <;> rw [hc] at he <;> cases he <;> decide

end Concrete

end GossipEvents
