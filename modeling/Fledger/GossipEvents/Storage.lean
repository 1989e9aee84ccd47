import Fledger.GossipEvents.Messages

namespace GossipEvents

namespace Events

-- The order in which `limit` considers the events.
abbrev Newer (a b : U256 × Event) : Prop :=
  b.2.created ≤ a.2.created

instance : Std.Total Newer where
  total a b := Int.le_total b.2.created a.2.created

instance : IsTrans _ Newer where
  trans _ _ _ hab hbc := Int.le_trans hbc hab

def dropped (s : Events) : List U256 :=
  HashMap.pairs s.events |>.insertionSort Newer |>.drop s.config.maxEvents |>.map Prod.fst

variable {s : Events} {e f : Event} {id i : U256} {rehash : HashMap.Rehash U256 Event}

theorem length_pairs : (HashMap.pairs s.events).length = s.events.keys.length := by
  simp [HashMap.pairs, AList.keys, List.keys]

theorem limit_of_length (h : s.events.keys.length ≤ s.config.maxEvents) : s.limit = s :=
  if_pos h

theorem dropped_of_length (h : s.events.keys.length ≤ s.config.maxEvents) : s.dropped = [] := by
  have hl : (HashMap.pairs s.events |>.insertionSort Newer).length ≤ s.config.maxEvents := by
    rwa [List.length_insertionSort, length_pairs]
  rw [dropped, List.drop_of_length_le hl, List.map_nil]

theorem lookup_limit (i : U256) :
    s.limit.events.lookup i = if i ∈ s.dropped then none else s.events.lookup i := by
  by_cases h : s.events.keys.length ≤ s.config.maxEvents
  case pos => rw [limit_of_length h, dropped_of_length h, if_neg (List.not_mem_nil)]
  case neg =>
    rw [limit, if_neg h]
    exact HashMap.lookup_foldl_erase s.dropped i

theorem config_limit : s.limit.config = s.config := by
  unfold limit
  split <;> rfl

theorem nodup_sorted (s : Events) :
    ((HashMap.pairs s.events |>.insertionSort Newer).map Prod.fst).Nodup :=
  (List.perm_insertionSort _ _).map Prod.fst |>.nodup_iff |>.mpr <| HashMap.nodup_pairs s.events

-- What is left are the first ones in the order of `limit`.
theorem lookup_limit_iff :
    s.limit.events.lookup i = some e ↔
      (i, e) ∈ (HashMap.pairs s.events |>.insertionSort Newer |>.take s.config.maxEvents) := by
  have hs := List.take_append_drop s.config.maxEvents <|
    (HashMap.pairs s.events).insertionSort Newer
  rw [lookup_limit]
  constructor
  case mp =>
    intro h
    split at h
    case isTrue  => cases h
    case isFalse hd =>
      have hp : (i, e) ∈ (HashMap.pairs s.events).insertionSort Newer :=
        (List.mem_insertionSort _).mpr <| HashMap.mem_pairs.mpr h
      rw [← hs, List.mem_append] at hp
      cases hp
      case inl hp => exact hp
      case inr hp => exact (hd <| List.mem_map_of_mem hp).elim
  case mpr =>
    intro h
    have hn := nodup_sorted s
    rw [← hs, List.map_append, List.nodup_append] at hn
    have hd : i ∉ s.dropped := fun hd => hn.2.2 _ (List.mem_map_of_mem h) _ hd rfl
    rw [if_neg hd, ← HashMap.mem_pairs]
    exact (List.mem_insertionSort _).mp <| List.mem_of_mem_take h

theorem length_limit (s : Events) :
    s.limit.events.keys.length = min s.config.maxEvents s.events.keys.length := by
  have hp : (HashMap.pairs s.limit.events).Perm
      (HashMap.pairs s.events |>.insertionSort Newer |>.take s.config.maxEvents) := by
    have hn := List.Nodup.of_map _ (nodup_sorted s)
    have hl := List.Nodup.of_map _ (HashMap.nodup_pairs s.limit.events)
    apply List.perm_ext_iff_of_nodup hl (hn.sublist <| List.take_sublist ..) |>.mpr
    exact fun p => HashMap.mem_pairs.trans lookup_limit_iff
  rw [← length_pairs, hp.length_eq, List.length_take, List.length_insertionSort, length_pairs]

-- An event only leaves if the others take all the room, and none of them is older.
theorem full_of_not_limit (h : s.events.lookup i = some e) (hl : s.limit.events.lookup i = none) :
    s.limit.events.keys.length = s.config.maxEvents ∧
      ∀ j f, s.limit.events.lookup j = some f → e.created ≤ f.created := by
  have hp : (i, e) ∈ (HashMap.pairs s.events).insertionSort Newer :=
    (List.mem_insertionSort _).mpr <| HashMap.mem_pairs.mpr h
  have hs := List.pairwise_insertionSort Newer (HashMap.pairs s.events)
  rw [← List.take_append_drop s.config.maxEvents (List.insertionSort ..)] at hp hs
  cases List.mem_append.mp hp
  case inl ht => cases hl.symm.trans <| lookup_limit_iff.mpr ht
  case inr hd =>
    constructor
    case left =>
      have hd := List.length_pos_of_mem hd
      rw [List.length_drop, List.length_insertionSort, length_pairs] at hd
      rw [length_limit]
      omega
    case right =>
      exact fun j f hf => (List.pairwise_append.mp hs).2.2 _ (lookup_limit_iff.mp hf) _ hd

variable [Sha256] {cat : Category} {msg : Event}

structure Wf (cat : Category) (s : Events) : Prop where
  keyed    : ∀ i e, s.events.lookup i = some e → e.getId = i
  category : ∀ i e, s.events.lookup i = some e → e.category = cat
  bounded  : s.events.keys.length ≤ s.config.maxEvents
  unique   : s.config.unique → ∀ i j e f, s.events.lookup i = some e → s.events.lookup j = some f →
    e.src = f.src → i = j

-- The invariant for events of any category.
structure Sound (s : Events) : Prop where
  keyed   : ∀ i e, s.events.lookup i = some e → e.getId = i
  bounded : s.events.keys.length ≤ s.config.maxEvents
  unique  : s.config.unique → ∀ i j e f, s.events.lookup i = some e → s.events.lookup j = some f →
    e.src = f.src → i = j

theorem Wf.sound (h : s.Wf cat) : s.Sound where
  keyed   := h.keyed
  bounded := h.bounded
  unique  := h.unique

-- The stored event of the same source is newer.
def Superseded (s : Events) (msg : Event) : Prop :=
  s.config.unique ∧ ∃ e ∈ HashMap.values s.events, e.src = msg.src ∧ msg.created < e.created

-- The stored events which the new one does not replace.
def rivals (s : Events) (msg : Event) : List Event :=
  (HashMap.values s.events).filter fun e => s.config.unique → e.src ≠ msg.src

-- What `insert_unique` leaves of the events before the new one is inserted.
def freed (s : Events) (msg : Event) : Events :=
  if s.config.unique then
    match (HashMap.pairs s.events).find? (·.2.src = msg.src) with
    | some (id, _) => { s with events := s.events.erase id }
    | none         => s
  else s

def placed (rehash : HashMap.Rehash U256 Event) (s : Events) (msg : Event) : Events :=
  { s.freed msg with events := (rehash <| (s.freed msg).events.insert msg.getId msg).1 }

theorem insertSimple_freed :
    insertSimple rehash (s.freed msg) msg = ((s.placed rehash msg).limit, true) :=
  rfl

omit [Sha256] in
theorem freed_of_not_unique (hu : ¬ s.config.unique) : s.freed msg = s :=
  if_neg hu

omit [Sha256] in
theorem freed_of_none (hf : (HashMap.pairs s.events).find? (·.2.src = msg.src) = none) :
    s.freed msg = s := by
  rw [freed, hf]
  exact ite_self s

omit [Sha256] in
theorem freed_of_some (hu : s.config.unique)
    (hf : (HashMap.pairs s.events).find? (·.2.src = msg.src) = some (id, e)) :
    s.freed msg = { s with events := s.events.erase id } := by
  rw [freed, if_pos hu, hf]

omit [Sha256] in
theorem config_freed : (s.freed msg).config = s.config := by
  unfold freed
  split
  case isFalse => rfl
  case isTrue  => split <;> rfl

theorem lookup_freed (h : s.Sound) :
    (s.freed msg).events.lookup i = some e ↔
      s.events.lookup i = some e ∧ (s.config.unique → e.src ≠ msg.src) := by
  unfold freed
  split
  case isFalse hu => simp [hu]
  case isTrue hu =>
    cases hf : (HashMap.pairs s.events).find? (·.2.src = msg.src)
    case none =>
      refine ⟨fun he => ⟨he, fun _ => ?_⟩, And.left⟩
      simpa using List.find?_eq_none.mp hf (i, e) (HashMap.mem_pairs.mpr he)
    case some p =>
      obtain ⟨id, ev⟩ := p
      have hl : s.events.lookup id = some ev := HashMap.mem_pairs.mp <| List.mem_of_find?_eq_some hf
      have hs : ev.src = msg.src := by simpa using List.find?_some hf
      rw [HashMap.lookup_erase_eq]
      constructor
      case mp =>
        intro he
        split at he
        case isTrue  => cases he
        case isFalse hi =>
          exact ⟨he, fun _ hs' => hi <| h.unique hu _ _ _ _ he hl (hs'.trans hs.symm)⟩
      case mpr =>
        intro he
        have hi : i ≠ id := by
          intro hi
          have hv : e = ev := Option.some.inj <| he.left.symm.trans (hi ▸ hl)
          exact he.right hu (hv ▸ hs)
        rw [if_neg hi]
        exact he.left

-- Everything an insertion can do.
theorem insert_cases (h : s.Sound) (msg : Event) (rehash : HashMap.Rehash U256 Event) :
    (msg.getId ∈ s.events ∧ s.insert rehash msg = (s, false)) ∨
    (msg.getId ∉ s.events ∧ s.Superseded msg ∧ s.insert rehash msg = (s, false)) ∨
    (msg.getId ∉ s.events ∧ ¬ s.Superseded msg ∧
      s.insert rehash msg = ((s.placed rehash msg).limit, true)) := by
  by_cases hk : msg.getId ∈ s.events
  case pos => exact .inl ⟨hk, if_pos hk⟩
  refine .inr ?_
  rw [insert, if_neg hk]
  by_cases hu : s.config.unique
  case neg =>
    rw [if_neg hu, ← insertSimple_freed, freed_of_not_unique hu]
    exact .inr ⟨hk, fun hs => hu hs.left, rfl⟩
  case pos =>
    rw [if_pos hu, insertUnique]
    cases hf : (HashMap.pairs s.events).find? (·.2.src = msg.src)
    case none =>
      rw [← insertSimple_freed, freed_of_none hf]
      refine .inr ⟨hk, fun hs => ?_, rfl⟩
      obtain ⟨_, e, he, hs, _⟩ := hs
      have ⟨i, hi⟩ := HashMap.mem_values.mp he
      have hn := List.find?_eq_none.mp hf (i, e) (HashMap.mem_pairs.mpr hi)
      exact hn <| decide_eq_true hs
    case some p =>
      obtain ⟨id, ev⟩ := p
      have hl : s.events.lookup id = some ev := HashMap.mem_pairs.mp <| List.mem_of_find?_eq_some hf
      have hs : ev.src = msg.src := by simpa using List.find?_some hf
      by_cases hc : ev.created > msg.created
      case pos =>
        exact .inl ⟨hk, ⟨hu, ev, HashMap.mem_values.mpr ⟨id, hl⟩, hs, hc⟩, if_pos hc⟩
      case neg =>
        rw [← insertSimple_freed, freed_of_some hu hf]
        refine .inr ⟨hk, fun hs' => ?_, if_neg hc⟩
        obtain ⟨_, e, he, hs', hc'⟩ := hs'
        have ⟨i, hi⟩ := HashMap.mem_values.mp he
        have hid : i = id := h.unique hu _ _ _ _ hi hl (hs'.trans hs.symm)
        have he : e = ev := Option.some.inj <| hi.symm.trans (hid ▸ hl)
        exact hc (he ▸ hc')

theorem lookup_placed (h : s.Sound) :
    (s.placed rehash msg).events.lookup i = some e ↔
      (i = msg.getId ∧ e = msg) ∨
      (i ≠ msg.getId ∧ s.events.lookup i = some e ∧ (s.config.unique → e.src ≠ msg.src)) := by
  rw [placed, HashMap.lookup_rehash, HashMap.lookup_insert_eq]
  split
  case isTrue hi =>
    rw [Option.some.injEq]
    exact ⟨fun he => .inl ⟨hi, he.symm⟩, fun he => he.elim (·.right.symm) (absurd hi ·.left)⟩
  case isFalse hi =>
    rw [lookup_freed h]
    exact ⟨fun he => .inr ⟨hi, he⟩, fun he => he.elim (absurd ·.left hi) And.right⟩

omit [Sha256] in
theorem lookup_of_lookup_limit (hl : s.limit.events.lookup i = some e) :
    s.events.lookup i = some e := by
  rw [lookup_limit] at hl
  split at hl
  case isTrue  => cases hl
  case isFalse => exact hl

-- An event after an insertion is the new one, or it was there before.
theorem lookup_limit_placed (h : s.Sound)
    (hl : (s.placed rehash msg).limit.events.lookup i = some e) :
    (i = msg.getId ∧ e = msg) ∨
    (s.events.lookup i = some e ∧ (s.config.unique → e.src ≠ msg.src)) := by
  cases (lookup_placed h).mp <| lookup_of_lookup_limit hl
  case inl hn => exact .inl hn
  case inr ho => exact .inr ho.right

theorem sound_limit_placed (h : s.Sound) : (s.placed rehash msg).limit.Sound where
  keyed i e hl := by
    cases lookup_limit_placed h hl
    case inl hn => rw [hn.left, hn.right]
    case inr ho => exact h.keyed _ _ ho.left
  bounded := by
    rw [config_limit, length_limit]
    exact Nat.min_le_left ..
  unique hu i j e f he hf hs := by
    have hu : s.config.unique := by rwa [config_limit, placed, config_freed] at hu
    cases lookup_limit_placed h he
    case inl he =>
      cases lookup_limit_placed h hf
      case inl hf => rw [he.left, hf.left]
      case inr hf => exact (hf.right hu <| he.right ▸ hs.symm).elim
    case inr he =>
      cases lookup_limit_placed h hf
      case inl hf => exact (he.right hu <| hf.right ▸ hs).elim
      case inr hf => exact h.unique hu _ _ _ _ he.left hf.left hs

theorem Sound.insert (h : s.Sound) : (s.insert rehash msg).1.Sound := by
  obtain ⟨_, hi⟩ | ⟨_, _, hi⟩ | ⟨_, _, hi⟩ := insert_cases h msg rehash
  · rwa [hi]
  · rwa [hi]
  · rw [hi]
    exact sound_limit_placed h

-- Nothing but the new event comes in.
theorem lookup_of_lookup_insert (h : s.Sound)
    (hl : (s.insert rehash msg).1.events.lookup i = some e) :
    s.events.lookup i = some e ∨ e = msg := by
  obtain ⟨_, hi⟩ | ⟨_, _, hi⟩ | ⟨_, _, hi⟩ := insert_cases h msg rehash
  · rw [hi] at hl
    exact .inl hl
  · rw [hi] at hl
    exact .inl hl
  · rw [hi] at hl
    cases lookup_limit_placed h hl
    case inl hn => exact .inr hn.right
    case inr ho => exact .inl ho.left

theorem Wf.insert (h : s.Wf cat) (hc : msg.category = cat) : (s.insert rehash msg).1.Wf cat where
  keyed   := h.sound.insert.keyed
  bounded := h.sound.insert.bounded
  unique  := h.sound.insert.unique
  category i e hl := by
    cases lookup_of_lookup_insert h.sound hl
    case inl ho => exact h.category _ _ ho
    case inr hn => rw [hn, hc]

theorem config_insert (h : s.Sound) : (s.insert rehash msg).1.config = s.config := by
  obtain ⟨_, hi⟩ | ⟨_, _, hi⟩ | ⟨_, _, hi⟩ := insert_cases h msg rehash
  · rw [hi]
  · rw [hi]
  · rw [hi, config_limit, placed, config_freed]

omit [Sha256] in
theorem rivals_eq (s : Events) (msg : Event) :
    s.rivals msg =
      ((HashMap.pairs s.events).filter fun p => s.config.unique → p.2.src ≠ msg.src).map
        Prod.snd := by
  rw [rivals, ← HashMap.map_snd_pairs, List.filter_map]
  rfl

omit [Sha256] in
theorem mem_rivals :
    e ∈ s.rivals msg ↔
      ∃ i, s.events.lookup i = some e ∧ (s.config.unique → e.src ≠ msg.src) := by
  simp only [rivals, List.mem_filter, HashMap.mem_values, decide_eq_true_iff, exists_and_right]

theorem length_freed (h : s.Sound) :
    (s.freed msg).events.keys.length = (s.rivals msg).length := by
  let rivals := (HashMap.pairs s.events).filter fun p => s.config.unique → p.2.src ≠ msg.src
  have hn : (rivals.map Prod.fst).Nodup :=
    (HashMap.nodup_pairs s.events).sublist <| List.filter_sublist.map _
  have hk : (s.freed msg).events.keys.Perm (rivals.map Prod.fst) := by
    apply (List.perm_ext_iff_of_nodup (AList.keys_nodup _) hn).mpr
    intro i
    rw [← AList.mem_keys, HashMap.mem_iff_lookup]
    simp only [rivals, lookup_freed h, List.mem_map, List.mem_filter, decide_eq_true_iff,
      Prod.exists, HashMap.mem_pairs, exists_and_right, exists_eq_right]
  rw [rivals_eq, hk.length_eq, List.length_map, List.length_map]

theorem length_placed (rehash : HashMap.Rehash U256 Event) (h : s.Sound)
    (hk : msg.getId ∉ s.events) :
    (s.placed rehash msg).events.keys.length = (s.rivals msg).length + 1 := by
  have hk : msg.getId ∉ (s.freed msg).events := by
    rw [HashMap.not_mem_iff_lookup, Option.eq_none_iff_forall_ne_some]
    intro e he
    exact hk <| HashMap.mem_iff_lookup.mpr ⟨e, (lookup_freed h |>.mp he).left⟩
  have hp := (rehash <| (s.freed msg).events.insert msg.getId msg).2.length_eq
  have hl (m : HashMap U256 Event) : m.keys.length = m.entries.length := List.length_map _
  rw [placed, hl, hp, AList.entries_insert_of_notMem hk, List.length_cons, ← hl, length_freed h]

theorem mem_getEventsByIds (h : s.Sound) {ids : List U256} :
    e ∈ s.getEventsByIds ids ↔ s.events.lookup e.getId = some e ∧ e.getId ∈ ids := by
  unfold getEventsByIds
  split
  case isTrue =>
    simp only [List.mem_filter, HashMap.mem_values, decide_eq_true_iff]
    refine and_congr_left fun _ => ⟨fun ⟨i, hi⟩ => ?_, fun hi => ⟨_, hi⟩⟩
    rwa [h.keyed _ _ hi]
  case isFalse =>
    rw [List.mem_filterMap]
    constructor
    case mp =>
      intro ⟨i, hm, hi⟩
      rw [h.keyed _ _ hi]
      exact ⟨hi, hm⟩
    case mpr =>
      intro ⟨hi, hm⟩
      exact ⟨_, hm, hi⟩

end Events

namespace EventsStorage

variable [Sha256] {s : EventsStorage} {evs : Events} {cat : Category} {msg e : Event} {id : U256}
  {rehash : HashMap.Rehash U256 Event}

def Holds (s : EventsStorage) (e : Event) : Prop :=
  ∃ evs, s.storage.lookup e.category = some evs ∧ evs.events.lookup e.getId = some e

structure Wf (s : EventsStorage) : Prop where
  total  : ∀ cat, cat ∈ s.storage
  events : ∀ cat evs, s.storage.lookup cat = some evs → evs.Wf cat

inductive Reachable : EventsStorage → Prop
  | new : Reachable new
  | addEvent {s : EventsStorage} (rehash : HashMap.Rehash U256 Event) (msg : Event) :
      Reachable s → Reachable (s.addEvent rehash msg).1

theorem addEvent_eq (he : s.storage.lookup msg.category = some evs) :
    s.addEvent rehash msg =
      ({ s with storage := s.storage.insert msg.category (evs.insert rehash msg).1 },
        (evs.insert rehash msg).2) := by
  rw [addEvent, he]

theorem holds_addEvent (he : s.storage.lookup msg.category = some evs) :
    (s.addEvent rehash msg).1.Holds e ↔
      if e.category = msg.category then (evs.insert rehash msg).1.events.lookup e.getId = some e
      else s.Holds e := by
  rw [addEvent_eq he, Holds, HashMap.lookup_insert_eq]
  split
  case isTrue  => simp
  case isFalse => rfl

theorem holds_iff (he : s.storage.lookup e.category = some evs) :
    s.Holds e ↔ evs.events.lookup e.getId = some e := by
  simp [Holds, he]

theorem Wf.lookup (h : s.Wf) (cat : Category) : ∃ evs, s.storage.lookup cat = some evs :=
  HashMap.mem_iff_lookup.mp (h.total cat)

theorem wf_empty (config : CategoryConfig) :
    Events.Wf cat { config, events := (∅ : HashMap U256 Event) } where
  keyed _ _ h    := by cases h
  category _ _ h := by cases h
  bounded        := Nat.zero_le _
  unique _ _ _ _ _ h := by cases h

theorem wf_new : new.Wf where
  total cat := by cases cat <;> decide
  events cat evs h := by
    have hs : evs = { config := evs.config, events := ∅ } := by
      cases cat <;> cases h <;> rfl
    exact hs ▸ wf_empty evs.config

theorem Wf.addEvent (h : s.Wf) : (s.addEvent rehash msg).1.Wf := by
  have ⟨evs, he⟩ := h.lookup msg.category
  rw [addEvent_eq he]
  constructor
  case total  => exact fun cat => AList.mem_insert _ |>.mpr <| .inr <| h.total cat
  case events =>
    intro cat evs' hl
    rw [HashMap.lookup_insert_eq] at hl
    split at hl
    case isTrue hc =>
      cases hl
      exact hc ▸ (h.events _ _ he).insert rfl
    case isFalse => exact h.events _ _ hl

theorem Reachable.wf (h : s.Reachable) : s.Wf := by
  induction h
  case new           => exact wf_new
  case addEvent hi   => exact hi.addEvent

-- Nothing but the new event comes in.
theorem holds_of_holds_addEvent (h : s.Wf) (he : (s.addEvent rehash msg).1.Holds e) :
    s.Holds e ∨ e = msg := by
  have ⟨evs, hl⟩ := h.lookup msg.category
  rw [holds_addEvent hl] at he
  split at he
  case isFalse => exact .inl he
  case isTrue hc =>
    rw [holds_iff (hc ▸ hl)]
    exact Events.lookup_of_lookup_insert (h.events _ _ hl).sound he

theorem mem_eventIds (h : s.Wf) : id ∈ s.eventIds ↔ ∃ e, s.Holds e ∧ e.getId = id := by
  simp only [eventIds, List.mem_flatMap, List.mem_map, HashMap.mem_values]
  constructor
  case mp =>
    intro ⟨evs, ⟨cat, hc⟩, e, ⟨i, hi⟩, he⟩
    have hw := h.events _ _ hc
    refine ⟨e, ⟨evs, ?_, ?_⟩, he⟩
    · rw [hw.category _ _ hi, hc]
    · rw [hw.keyed _ _ hi, hi]
  case mpr =>
    intro ⟨e, ⟨evs, hc, hi⟩, he⟩
    exact ⟨evs, ⟨_, hc⟩, e, ⟨_, hi⟩, he⟩

theorem mem_getEventsByIds (h : s.Wf) {ids : List U256} :
    e ∈ s.getEventsByIds ids ↔ s.Holds e ∧ e.getId ∈ ids := by
  simp only [getEventsByIds, List.mem_flatMap, HashMap.mem_values]
  constructor
  case mp =>
    intro ⟨evs, ⟨cat, hc⟩, he⟩
    have hw := h.events _ _ hc
    have ⟨hi, hm⟩ := (Events.mem_getEventsByIds hw.sound).mp he
    refine ⟨⟨evs, ?_, hi⟩, hm⟩
    rw [hw.category _ _ hi, hc]
  case mpr =>
    intro ⟨⟨evs, hc, hi⟩, hm⟩
    exact ⟨evs, ⟨_, hc⟩, (Events.mem_getEventsByIds (h.events _ _ hc).sound).mpr ⟨hi, hm⟩⟩

end EventsStorage

end GossipEvents
