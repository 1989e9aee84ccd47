import Fledger.GossipEvents.Acceptance
import Fledger.Lib.Newest
import Mathlib.Data.List.TakeWhile

namespace List

-- The first element only comes after those which may not stand behind it.
theorem mem_take_insertionSort_cons {α : Type*} {r : α → α → Prop} [DecidableRel r] {l : List α}
    {x : α} {n : Nat} (h : (l.filter fun a => ¬ r x a).length < n) :
    x ∈ ((x :: l).insertionSort r).take n := by
  have hl : ((l.insertionSort r).takeWhile fun a => ¬ r x a).length < n := by
    have hs := takeWhile_sublist (l := l.insertionSort r) (fun a => decide ¬ r x a) |>.filter
      fun a => decide ¬ r x a
    have hf : ((l.insertionSort r).takeWhile fun a => ¬ r x a).filter (fun a => ¬ r x a) =
        (l.insertionSort r).takeWhile fun a => ¬ r x a :=
      filter_eq_self.mpr fun a ha => mem_takeWhile_imp (p := fun a => decide ¬ r x a) ha
    have hp := ((perm_insertionSort r l).filter fun a => decide ¬ r x a).length_eq
    exact (hf ▸ hs.length_le).trans_lt <| hp ▸ h
  rw [insertionSort_cons_eq_take_drop, take_append, mem_append]
  right
  obtain ⟨m, hm⟩ := Nat.exists_eq_add_of_lt hl
  rw [show n - _ = m + 1 by omega, take_succ_cons]
  exact mem_cons_self

end List

namespace GossipEvents

namespace Events

-- Events of the same slot replace each other: those of a source if they are unique, else only the
-- event itself.
def slot (config : CategoryConfig) (e : Event) : Event ⊕ NodeID :=
  if config.unique then .inr e.src else .inl e

def stored (s : Events) : Finset Event :=
  (HashMap.values s.events).toFinset

-- The newest events of those which have been taken into account.
abbrev Collects (s : Events) (es : Finset Event) : Prop :=
  Newest.Selects (slot s.config) Event.created s.config.maxEvents es s.stored

def empty (config : CategoryConfig) : Events where
  config := config
  events := ∅

-- Events one after the other, with what each insertion makes of the order of the map.
abbrev Feed := List (HashMap.Rehash U256 Event × Event)

def Feed.inOrder (es : List Event) : Feed :=
  es.map (.same, ·)

theorem Feed.map_inOrder (es : List Event) : (Feed.inOrder es).map Prod.snd = es := by
  simp [Feed.inOrder, Function.comp_def]

def insertAll [Sha256] (s : Events) (feed : Feed) : Events :=
  feed.foldl (fun s p => (s.insert p.1 p.2).1) s

-- Events end up the same in whatever order they come in.
def Converges [Sha256] (config : CategoryConfig) (es : Finset Event) : Prop :=
  ∀ feed feed' : Feed,
    (feed.map Prod.snd).Perm es.toList → (feed'.map Prod.snd).Perm es.toList →
      ∀ id, ((empty config).insertAll feed).events.lookup id =
        ((empty config).insertAll feed').events.lookup id

variable {s s' : Events} {config : CategoryConfig} {e f msg : Event} {es : Finset Event} {i : U256}
  {rehash : HashMap.Rehash U256 Event}

theorem slot_eq_iff :
    slot config e = slot config f ↔
      (config.unique ∧ e.src = f.src) ∨ (¬ config.unique ∧ e = f) := by
  unfold slot
  split
  case isTrue hu  => simp [hu]
  case isFalse hu => simp [hu]

theorem mem_stored : e ∈ s.stored ↔ ∃ i, s.events.lookup i = some e := by
  rw [stored, List.mem_toFinset, HashMap.mem_values]

variable [Sha256]

theorem sound_empty (config : CategoryConfig) : (empty config).Sound :=
  have h : Wf .textMessage (empty config) := EventsStorage.wf_empty config
  h.sound

omit [Sha256] in
theorem collects_empty (config : CategoryConfig) : (empty config).Collects ∅ :=
  Newest.Selects.empty

namespace Sound

variable (h : s.Sound)

include h

theorem mem_stored : e ∈ s.stored ↔ s.events.lookup e.getId = some e := by
  rw [Events.mem_stored]
  constructor
  case mp =>
    intro ⟨i, hi⟩
    rwa [h.keyed i e hi]
  case mpr => exact fun he => ⟨_, he⟩

theorem card_stored : s.stored.card = s.events.keys.length := by
  have hm : (HashMap.pairs s.events).map Prod.fst = (HashMap.values s.events).map Event.getId := by
    rw [← HashMap.map_snd_pairs, List.map_map]
    apply List.map_congr_left
    exact fun p hp => (h.keyed p.1 p.2 <| HashMap.mem_pairs.mp hp).symm
  have hn : (HashMap.values s.events).Nodup :=
    List.Nodup.of_map _ <| hm ▸ HashMap.nodup_pairs s.events
  rw [stored, List.toFinset_card_of_nodup hn, ← HashMap.map_snd_pairs, List.length_map,
    length_pairs]

theorem stored_placed (rehash : HashMap.Rehash U256 Event) (hk : msg.getId ∉ s.events) :
    (s.placed rehash msg).stored = Newest.Selects.replace (slot s.config) msg s.stored := by
  ext e
  rw [Newest.Selects.mem_replace, Events.mem_stored]
  constructor
  case mp =>
    intro ⟨i, hi⟩
    cases (lookup_placed h).mp hi
    case inl hn => exact .inl hn.right
    case inr ho =>
      refine .inr ⟨Events.mem_stored.mpr ⟨i, ho.2.1⟩, fun hs => ?_⟩
      cases slot_eq_iff.mp hs
      case inl hs => exact ho.2.2 hs.left hs.right
      case inr hs => exact ho.1 <| by rw [← hs.right, h.keyed _ _ ho.2.1]
  case mpr =>
    intro he
    refine ⟨e.getId, (lookup_placed h).mpr ?_⟩
    cases he
    case inl hn => exact .inl ⟨hn ▸ rfl, hn⟩
    case inr ho =>
      have hl := h.mem_stored.mp ho.left
      refine .inr ⟨fun hi => hk <| hi ▸ HashMap.mem_iff_lookup.mpr ⟨e, hl⟩, hl, fun hu hs => ?_⟩
      exact ho.right <| slot_eq_iff.mpr <| .inl ⟨hu, hs⟩

omit h in
-- An event which `limit` drops was not newer than all events which it keeps, and there is no room.
theorem full_of_not_mem_limit (hl : s.limit.Sound) (hf : f ∈ s.stored) (hn : f ∉ s.limit.stored) :
    s.config.maxEvents ≤ s.limit.stored.card ∧ ∀ e ∈ s.limit.stored, f.created ≤ e.created := by
  have ⟨i, hi⟩ := Events.mem_stored.mp hf
  have hd : s.limit.events.lookup i = none := by
    rw [Option.eq_none_iff_forall_ne_some]
    intro g hg
    have hfg : f = g := Option.some.inj <| hi.symm.trans <| lookup_of_lookup_limit hg
    exact hn <| Events.mem_stored.mpr ⟨i, hfg ▸ hg⟩
  have ⟨hfull, hold⟩ := full_of_not_limit hi hd
  rw [hl.card_stored, hfull]
  exact ⟨le_rfl, fun e he => hold _ _ <| hl.mem_stored.mp he⟩

theorem collects_limit_placed (rehash : HashMap.Rehash U256 Event) (hc : s.Collects es)
    (hk : msg.getId ∉ s.events) (hs : ¬ s.Superseded msg) :
    (s.placed rehash msg).limit.Collects (Insert.insert msg es) := by
  have hl : (s.placed rehash msg).limit.Sound := sound_limit_placed h
  have hp : (s.placed rehash msg).config = s.config := config_freed
  rw [Collects, config_limit, hp]
  apply hc.trim
  case ha =>
    intro f hf hslot
    cases slot_eq_iff.mp hslot
    case inr he => exact he.right ▸ Int.le_refl _
    case inl hu =>
      have hf := List.mem_toFinset.mp hf
      exact Int.not_lt.mp fun ht => hs ⟨hu.left, f, hf, hu.right, ht⟩
  case hs =>
    rw [← h.stored_placed rehash hk]
    intro e he
    have ⟨i, hi⟩ := Events.mem_stored.mp he
    exact Events.mem_stored.mpr ⟨i, lookup_of_lookup_limit hi⟩
  case hc =>
    rw [hl.card_stored, length_limit, hp]
    exact Nat.min_le_left ..
  case hd =>
    rw [← h.stored_placed rehash hk, ← hp]
    exact fun f hf hn => full_of_not_mem_limit hl hf hn

theorem collects_insert (rehash : HashMap.Rehash U256 Event) (hc : s.Collects es)
    (hk : msg.getId ∉ s.events) : (s.insert rehash msg).1.Collects (Insert.insert msg es) := by
  obtain ⟨hk', _⟩ | ⟨_, hs, hi⟩ | ⟨_, hs, hi⟩ := insert_cases h msg rehash
  case inl => exact (hk hk').elim
  case inr.inl =>
    have ⟨hu, f, hf, hsrc, ht⟩ := hs
    rw [hi]
    exact hc.insert_of_newer (List.mem_toFinset.mpr hf) (slot_eq_iff.mpr <| .inl ⟨hu, hsrc⟩) ht.le
  case inr.inr =>
    rw [hi]
    exact h.collects_limit_placed rehash hc hk hs

theorem exists_collects_insert (rehash : HashMap.Rehash U256 Event) (msg : Event)
    (hc : s.Collects es) : ∃ es', es ⊆ es' ∧ (s.insert rehash msg).1.Collects es' := by
  by_cases hk : msg.getId ∈ s.events
  case neg => exact ⟨_, Finset.subset_insert msg es, h.collects_insert rehash hc hk⟩
  case pos =>
    refine ⟨es, Finset.Subset.refl es, ?_⟩
    rw [Events.insert, if_pos hk]
    exact hc

theorem lookup_iff : s.events.lookup i = some e ↔ e.getId = i ∧ e ∈ s.stored := by
  rw [h.mem_stored]
  constructor
  case mp =>
    intro hi
    have hk := h.keyed i e hi
    exact ⟨hk, hk ▸ hi⟩
  case mpr => exact fun he => he.left ▸ he.right

theorem lookup_eq (h' : s'.Sound) (hs : s.stored = s'.stored) (i : U256) :
    s.events.lookup i = s'.events.lookup i := by
  ext e
  rw [h.lookup_iff, h'.lookup_iff, hs]

theorem insertAll (feed : Feed) : (s.insertAll feed).Sound := by
  induction feed generalizing s
  case nil          => exact h
  case cons p ps hi => exact hi h.insert

theorem config_insertAll (feed : Feed) :
    (s.insertAll feed).config = s.config := by
  induction feed generalizing s
  case nil          => rfl
  case cons p ps hi => exact (hi h.insert).trans (config_insert h)

theorem collects_insertAll (feed : Feed) (hc : s.Collects es)
    (hi : Set.InjOn Event.getId (es ∪ (feed.map Prod.snd).toFinset : Finset Event)) :
    (s.insertAll feed).Collects (es ∪ (feed.map Prod.snd).toFinset) := by
  induction feed generalizing s es
  case nil => simpa [Events.insertAll] using hc
  case cons p ps hr =>
    have hu : es ∪ ((p :: ps).map Prod.snd).toFinset =
        Insert.insert p.2 es ∪ (ps.map Prod.snd).toFinset := by
      rw [List.map_cons, List.toFinset_cons, Finset.insert_union, Finset.union_insert]
    rw [hu] at hi ⊢
    apply hr h.insert _ hi
    by_cases hk : p.2.getId ∈ s.events
    case neg => exact h.collects_insert p.1 hc hk
    case pos =>
      have ⟨f, hf⟩ := HashMap.mem_iff_lookup.mp hk
      have ⟨hid, hm⟩ := h.lookup_iff.mp hf
      have hfp : f = p.2 := by
        apply hi _ _ hid
        · exact Finset.mem_union_left _ <| Finset.mem_insert_of_mem <| hc.subset hm
        · exact Finset.mem_union_left _ <| Finset.mem_insert_self _ _
      have hp : p.2 ∈ es := hfp ▸ hc.subset hm
      rw [Finset.insert_eq_of_mem hp, Events.insert, if_pos hk]
      exact hc

end Sound

variable {feed : Feed}

theorem collects_insertAll_empty (config : CategoryConfig) (hi : Set.InjOn Event.getId es)
    (hf : (feed.map Prod.snd).Perm es.toList) :
    Newest.Selects (slot config) Event.created config.maxEvents es
      ((empty config).insertAll feed).stored := by
  have he : ∅ ∪ (feed.map Prod.snd).toFinset = es := by
    rw [Finset.empty_union, List.toFinset_eq_of_perm _ _ hf, Finset.toList_toFinset]
  have hc := (sound_empty config).collects_insertAll feed (collects_empty config)
  rw [he] at hc
  have hc := hc hi
  rwa [Collects, (sound_empty config).config_insertAll feed] at hc

theorem converges_of_decided (hi : Set.InjOn Event.getId es)
    (hd : Newest.Decided (slot config) Event.created config.maxEvents es) :
    Converges config es := by
  have stored_eq {feed : Feed}
      (hf : (feed.map Prod.snd).Perm es.toList) : ((empty config).insertAll feed).stored =
        Newest.kept (slot config) Event.created config.maxEvents es :=
    collects_insertAll_empty config hi hf |>.eq_kept hd
  intro feed feed' hf hf'
  have h (feed) := (sound_empty config).insertAll feed
  exact (h feed).lookup_eq (h feed') <| (stored_eq hf).trans (stored_eq hf').symm

theorem length_newer {rest : List (U256 × Event)} {newer : Finset Event}
    (hr : HashMap.pairs s.events = (i, e) :: rest)
    (h : ∀ p ∈ rest, e.created < p.2.created → p.1 = p.2.getId ∧ p.2 ∈ newer) :
    (rest.filter fun p => ¬ Newer (i, e) p).length ≤ newer.card := by
  have hp : ∀ p ∈ rest.filter fun p => ¬ Newer (i, e) p, p.1 = p.2.getId ∧ p.2 ∈ newer := by
    intro p hp
    have ⟨hm, ht⟩ := List.mem_filter.mp hp
    exact h p hm <| Int.not_le.mp <| of_decide_eq_true ht
  have hn : ((rest.filter fun p => ¬ Newer (i, e) p).map Prod.snd).Nodup := by
    have hm : (rest.filter fun p => ¬ Newer (i, e) p).map Prod.fst =
        ((rest.filter fun p => ¬ Newer (i, e) p).map Prod.snd).map Event.getId := by
      rw [List.map_map]
      exact List.map_congr_left fun p hm => (hp p hm).left
    apply List.Nodup.of_map Event.getId
    rw [← hm]
    have hn := hr ▸ HashMap.nodup_pairs s.events
    exact (List.nodup_cons.mp hn).right.sublist <| List.filter_sublist.map _
  rw [← List.length_map Prod.snd, ← List.toFinset_card_of_nodup hn]
  apply Finset.card_le_card
  intro f hf
  obtain ⟨p, hm, rfl⟩ := List.mem_map.mp <| List.mem_toFinset.mp hf
  exact (hp p hm).right

-- The last event of a feed comes first among those of its age.
theorem mem_stored_of_last (h : s.Sound) (hc : s.Collects (es.erase e)) (hk : e.getId ∉ s.events)
    (hcfg : s.config = config) (he : e ∈ Newest.latest (slot config) Event.created es)
    (ha : (Newest.after (slot config) Event.created es e.created).card < config.maxEvents) :
    e ∈ (s.insert .same e).1.stored := by
  subst hcfg
  obtain ⟨hk', _⟩ | ⟨_, hs, _⟩ | ⟨_, _, hi⟩ := insert_cases h e .same
  case inl => exact (hk hk').elim
  case inr.inl =>
    have ⟨hu, f, hf, hsrc, ht⟩ := hs
    have hf := Finset.mem_of_mem_erase <| hc.subset <| List.mem_toFinset.mpr hf
    have hl := (Newest.mem_latest.mp he).right f hf <| slot_eq_iff.mpr <| .inl ⟨hu, hsrc⟩
    exact absurd ht (Int.not_lt.mpr hl)
  case inr.inr =>
    rw [hi, mem_stored]
    refine ⟨e.getId, lookup_limit_iff.mpr ?_⟩
    have ⟨rest, hr⟩ : ∃ rest, HashMap.pairs (s.placed .same e).events = (e.getId, e) :: rest := by
      simp only [placed, HashMap.pairs, HashMap.Rehash.same, AList.entries_insert, List.map_cons]
      exact ⟨_, rfl⟩
    rw [hr]
    apply List.mem_take_insertionSort_cons
    have hcfg : (s.placed .same e).config = s.config := config_freed
    rw [hcfg]
    refine (length_newer hr fun p hp ht => ?_).trans_lt ha
    have hp : (s.placed .same e).events.lookup p.1 = some p.2 :=
      HashMap.mem_pairs.mp <| hr ▸ List.mem_cons_of_mem _ hp
    cases (lookup_placed h).mp hp
    case inl hn => exact absurd ht <| hn.right ▸ Int.lt_irrefl _
    case inr ho =>
      refine ⟨(h.keyed _ _ ho.2.1).symm, Newest.mem_after.mpr ⟨?_, ht⟩⟩
      have hm : p.2 ∈ s.stored := mem_stored.mpr ⟨_, ho.2.1⟩
      exact Newest.latest_of_erase (hc.subset_latest hm) ht.le

-- A latest event which is not crowded out by newer ones is stored if it comes in last.
theorem exists_feed (hi : Set.InjOn Event.getId es)
    (he : e ∈ Newest.latest (slot config) Event.created es)
    (ha : (Newest.after (slot config) Event.created es e.created).card < config.maxEvents) :
    ∃ feed, (feed.map Prod.snd).Perm es.toList ∧ e ∈ ((empty config).insertAll feed).stored := by
  let feed := Feed.inOrder (es.erase e).toList
  let s := (empty config).insertAll feed
  have hfeed : feed.map Prod.snd = (es.erase e).toList := Feed.map_inOrder _
  have hm := (Newest.mem_latest.mp he).left
  have h : s.Sound := (sound_empty config).insertAll feed
  have hcfg : s.config = config := (sound_empty config).config_insertAll feed
  have hc : s.Collects (es.erase e) := by
    rw [Collects, hcfg]
    exact collects_insertAll_empty config (hi.mono <| Finset.erase_subset e es) (.of_eq hfeed)
  have hk : e.getId ∉ s.events := by
    intro hk
    have ⟨f, hf⟩ := HashMap.mem_iff_lookup.mp hk
    have ⟨hid, hf⟩ := h.lookup_iff.mp hf
    have ⟨hne, hf⟩ := Finset.mem_erase.mp <| hc.subset hf
    exact hne <| hi hf hm hid
  refine ⟨feed ++ [(.same, e)], ?_, ?_⟩
  · have hp := Finset.toList_insert (Finset.notMem_erase e es)
    rw [Finset.insert_erase hm] at hp
    rw [List.map_append, hfeed]
    exact (List.perm_append_singleton e _).trans hp.symm
  · rw [insertAll, List.foldl_append]
    exact mem_stored_of_last h hc hk hcfg he ha

theorem decided_of_converges (hi : Set.InjOn Event.getId es) (hc : Converges config es) :
    Newest.Decided (slot config) Event.created config.maxEvents es := by
  let feed := Feed.inOrder es.toList
  have hf : (feed.map Prod.snd).Perm es.toList := .of_eq <| Feed.map_inOrder _
  have hs := collects_insertAll_empty config hi hf
  refine Newest.decided_of_subset hs.card_le hs.inj fun e he ha => ?_
  have ⟨feed', hf', hm⟩ := exists_feed hi he ha
  have h (feed) := (sound_empty config).insertAll feed
  rw [(h feed').mem_stored, hc feed' feed hf' hf] at hm
  exact (h feed).mem_stored.mpr hm

-- The order in which events come in does not matter if and only if those of the same age do not
-- compete for a place, as is so where all are of different ages.
theorem converges_iff (hi : Set.InjOn Event.getId es) :
    (Converges config es ↔ Newest.Decided (slot config) Event.created config.maxEvents es) ∧
    (Set.InjOn Event.created es → Converges config es) :=
  ⟨⟨decided_of_converges hi, converges_of_decided hi⟩,
    fun hc => converges_of_decided hi <| Newest.decided_of_injOn hc⟩

end Events

namespace EventsStorage

open Events

def addAll [Sha256] (s : EventsStorage) (feed : Feed) : EventsStorage :=
  feed.foldl (fun s p => (s.addEvent p.1 p.2).1) s

def Collects (s : EventsStorage) (es : Category → Finset Event) : Prop :=
  ∀ cat evs, s.storage.lookup cat = some evs → evs.Collects (es cat)

-- What is stored later of a source in a unique category is not older.
def KeepsNewest (s s' : EventsStorage) : Prop :=
  ∀ cat evs evs', s.storage.lookup cat = some evs → s'.storage.lookup cat = some evs' →
    evs'.config = evs.config ∧ (evs.config.unique → ∀ i j e f, evs.events.lookup i = some e →
      evs'.events.lookup j = some f → e.src = f.src → e.created ≤ f.created)

variable [Sha256] {s s' : EventsStorage} {es : Category → Finset Event} {evs evs' : Events}
  {cat : Category} {msg : Event} {rehash : HashMap.Rehash U256 Event}

omit [Sha256] in
theorem collects_new : new.Collects fun _ => ∅ := by
  intro cat evs h
  have hs : evs = Events.empty evs.config := by cases cat <;> cases h <;> rfl
  exact hs ▸ collects_empty evs.config

theorem config_addEvent (h : s.Wf) (he : s.storage.lookup cat = some evs)
    (he' : (s.addEvent rehash msg).1.storage.lookup cat = some evs') :
    evs'.config = evs.config := by
  have ⟨evs₁, hl⟩ := h.lookup msg.category
  rw [addEvent_eq hl, HashMap.lookup_insert_eq] at he'
  split at he'
  case isFalse => rw [Option.some.inj <| he'.symm.trans he]
  case isTrue hc =>
    cases he'
    rw [config_insert (h.events _ _ hl).sound, Option.some.inj <| hl.symm.trans <| hc ▸ he]

theorem exists_collects_addEvent (rehash : HashMap.Rehash U256 Event) (msg : Event)
    (h : s.Wf) (hc : s.Collects es) :
    ∃ es', (∀ cat, es cat ⊆ es' cat) ∧ (s.addEvent rehash msg).1.Collects es' := by
  have ⟨evs, hl⟩ := h.lookup msg.category
  have ⟨es₁, hs, hi⟩ := (h.events _ _ hl).sound.exists_collects_insert rehash msg (hc _ _ hl)
  refine ⟨Function.update es msg.category es₁, fun cat => ?_, fun cat evs' he => ?_⟩
  case refine_1 =>
    by_cases hcat : cat = msg.category
    case pos => rwa [hcat, Function.update_self]
    case neg => rw [Function.update_of_ne hcat]
  case refine_2 =>
    rw [addEvent_eq hl, HashMap.lookup_insert_eq] at he
    split at he
    case isTrue hcat =>
      cases he
      rwa [hcat, Function.update_self]
    case isFalse hcat =>
      rw [Function.update_of_ne hcat]
      exact hc _ _ he

-- The newest events of a run are among those of a longer one.
theorem exists_collects_addAll (feed : Feed) (h : s.Wf) (hc : s.Collects es) :
    ∃ es', (∀ cat, es cat ⊆ es' cat) ∧ (s.addAll feed).Collects es' := by
  induction feed generalizing s es
  case nil => exact ⟨es, fun _ => Finset.Subset.refl _, hc⟩
  case cons p ps hi =>
    have ⟨es₁, hs₁, hc₁⟩ := exists_collects_addEvent p.1 p.2 h hc
    have ⟨es₂, hs₂, hc₂⟩ := hi h.addEvent hc₁
    exact ⟨es₂, fun cat => (hs₁ cat).trans (hs₂ cat), hc₂⟩

theorem Wf.addAll (h : s.Wf) (feed : Feed) : (s.addAll feed).Wf := by
  induction feed generalizing s
  case nil          => exact h
  case cons p ps hi => exact hi h.addEvent

theorem config_addAll (feed : Feed) (h : s.Wf) (he : s.storage.lookup cat = some evs)
    (he' : (s.addAll feed).storage.lookup cat = some evs') : evs'.config = evs.config := by
  induction feed generalizing s evs
  case nil => rw [Option.some.inj <| he'.symm.trans he]
  case cons p ps hi =>
    have hw : (s.addEvent p.1 p.2).1.Wf := h.addEvent
    have ⟨evs₁, he₁⟩ := hw.lookup cat
    exact (hi hw he₁ he').trans <| config_addEvent h he he₁

theorem keepsNewest_addAll (feed : Feed) (h : s.Wf) (hc : s.Collects es) :
    s.KeepsNewest (s.addAll feed) := by
  intro cat evs evs' he he'
  have hcfg := config_addAll feed h he he'
  refine ⟨hcfg, fun hu i j e f hi hj hs => ?_⟩
  have ⟨es', hes, hc'⟩ := exists_collects_addAll feed h hc
  have hf := hc' _ _ he' |>.subset_latest <| mem_stored.mpr ⟨j, hj⟩
  have hm := hes cat <| hc _ _ he |>.subset <| mem_stored.mpr ⟨i, hi⟩
  have hu : evs'.config.unique := hcfg ▸ hu
  exact (Newest.mem_latest.mp hf).right e hm <| slot_eq_iff.mpr <| .inl ⟨hu, hs⟩

-- After any run from the start, the storage is well formed, and no event of a source in a unique
-- category is ever replaced by an older one of that source.
theorem wf_and_keepsNewest (feed more : Feed) :
    (new.addAll feed).Wf ∧ (new.addAll feed).KeepsNewest ((new.addAll feed).addAll more) := by
  have h : (new.addAll feed).Wf := wf_new.addAll feed
  have ⟨_, _, hc⟩ := exists_collects_addAll feed wf_new collects_new
  exact ⟨h, keepsNewest_addAll more h hc⟩

end EventsStorage

section Concrete

open Events

attribute [local instance] Sha256.rolling

def sampleConfig : CategoryConfig where
  unique    := true
  maxEvents := 10

def sampleInfo (created : Int) (msg : String) : Event where
  category := .nodeInfo
  src      := .zero
  created  := created
  msg      := msg

theorem injOn_toFinset {β : Type*} {l : List Event} {g : Event → β}
    (h : ∀ e ∈ l, ∀ f ∈ l, g e = g f → e = f) : Set.InjOn g (l.toFinset : Set Event) :=
  fun e he f hf => h e (List.mem_toFinset.mp he) f (List.mem_toFinset.mp hf)

theorem converges_of_renamed :
    Converges sampleConfig [sampleInfo 1 "foo", sampleInfo 2 "bar"].toFinset := by
  refine converges_iff ?_ |>.right ?_
  · exact injOn_toFinset <| by decide +kernel
  · exact injOn_toFinset <| by decide +kernel

-- Of two events of the same age, the one which comes in last is stored.
theorem not_converges :
    ¬ ∀ (config : CategoryConfig) (es : Finset Event),
      Set.InjOn Event.getId (es : Set Event) → Converges config es := by
  intro h
  let es := [sampleInfo 1 "foo", sampleInfo 1 "bar"]
  have hp : es.Perm es.toFinset.toList := (List.toFinset_toList <| by decide +kernel).symm
  have hc := h sampleConfig es.toFinset <| injOn_toFinset <| by decide +kernel
  have hl := hc (.inOrder es) (.inOrder es.reverse)
    (by rwa [Feed.map_inOrder]) (by rw [Feed.map_inOrder]; exact es.reverse_perm.trans hp)
    (sampleInfo 1 "foo").getId
  revert hl
  decide +kernel

end Concrete

end GossipEvents
