import Fledger.GossipEvents.Acceptance
import Fledger.Lib.F64

namespace GossipEvents

-- `[u8; 32]`, which is saved as a list of numbers.
structure U256V1 where
  bytes        : Bytes
  length_bytes : bytes.length = 32

def U256V1.into (u : U256V1) : U256 where
  bytes        := u.bytes
  length_bytes := u.length_bytes

theorem U256V1.into_inj {u v : U256V1} (h : u.into = v.into) : u = v := by
  cases u
  cases v
  cases h
  rfl

instance : DecidableEq U256V1 :=
  fun u v => decidable_of_iff (u.into = v.into) ⟨U256V1.into_inj, congrArg _⟩

structure EventV1 where
  category : Category
  src      : U256V1
  created  : Int
  msg      : String

structure EventsV1 where
  config : CategoryConfig
  events : HashMap U256V1 EventV1

structure EventsStorageV1 where
  storage : HashMap Category EventsV1

structure EventV2 where
  category : Category
  src      : NodeID
  created  : F64
  msg      : String

structure EventsV2 where
  config : CategoryConfig
  events : HashMap U256 EventV2

structure EventsStorageV2 where
  storage : HashMap Category EventsV2

structure EventsStorageV3 where
  storage : HashMap Category Events

inductive EventsStorageSave
  | v1 (es : EventsStorageV1)
  | v2 (es : EventsStorageV2)
  | v3 (es : EventsStorageV3)
  | v4 (es : EventsStorage)

section Versions

def EventV1.toV2 (v : EventV1) : EventV2 where
  category := v.category
  src      := v.src.into
  created  := F64.ofI64 v.created
  msg      := v.msg

def EventsV1.toLatest (s : EventsV1) : EventsV2 where
  config := s.config
  events := .collect <| (HashMap.pairs s.events).map fun p => (p.1.into, p.2.toV2)

def EventV2.toEvent (v : EventV2) : Event where
  category := v.category
  src      := v.src
  created  := F64.toI64 v.created
  msg      := v.msg

variable [Sha256]

-- Each event is put under the id it has by now.
def Events.rekeyed (config : CategoryConfig) (es : List Event) : Events where
  config := config
  events := .collect <| es.map fun e => (e.getId, e)

def EventsV2.toLatest (s : EventsV2) : Events :=
  .rekeyed s.config <| (HashMap.values s.events).map EventV2.toEvent

def EventsStorageV2.toLatest (es : EventsStorageV2) : EventsStorage where
  storage := .collect <| (HashMap.pairs es.storage).map fun p => (p.1, p.2.toLatest)

def EventsStorageV1.toLatest (es : EventsStorageV1) : EventsStorage :=
  EventsStorageV2.toLatest {
    storage := .collect <| (HashMap.pairs es.storage).map fun p => (p.1, p.2.toLatest)
  }

-- This is to catch errors in migration from V2 to V3.
def Events.toLatest (s : Events) : Events :=
  .rekeyed s.config <| HashMap.values s.events

def EventsStorageV3.toLatest (es : EventsStorageV3) : EventsStorage where
  storage := .collect <| (HashMap.pairs es.storage).map fun p => (p.1, p.2.toLatest)

namespace EventsStorageSave

def toLatest : EventsStorageSave → EventsStorage
  | v1 es => es.toLatest
  | v2 es => es.toLatest
  | v3 es => es.toLatest
  | v4 es => es

variable [Yaml EventsStorageSave] [Yaml EventsStorageV1]

def fromStr (data : String) : Option EventsStorage :=
  match (Yaml.fromStr data : Option EventsStorageSave) with
  | some es => some es.toLatest
  | none    => (Yaml.fromStr data).map EventsStorageV1.toLatest

end EventsStorageSave

-- `EventsStorage::get` and `EventsStorage::set`.
abbrev EventsStorage.yaml [Yaml EventsStorageSave] [Yaml EventsStorageV1] : Yaml EventsStorage where
  toString es := Yaml.toString (EventsStorageSave.v4 es)
  fromStr     := EventsStorageSave.fromStr

end Versions

section Migration

-- An event with the time which stands in the file.
structure SavedEvent where
  category : Category
  src      : NodeID
  created  : Option Rat
  msg      : String

def EventV1.saved (v : EventV1) : SavedEvent where
  category := v.category
  src      := v.src.into
  created  := some v.created
  msg      := v.msg

def EventV2.saved (v : EventV2) : SavedEvent where
  category := v.category
  src      := v.src
  created  := v.created.value
  msg      := v.msg

def Event.saved (e : Event) : SavedEvent where
  category := e.category
  src      := e.src
  created  := some e.created
  msg      := e.msg

theorem Event.saved_injective : Function.Injective Event.saved := by
  rintro ⟨c, src, t, msg⟩ ⟨c', src', t', msg'⟩ h
  injection h with hc hs ht hm
  have ht : t = t' := by exact_mod_cast Option.some.inj ht
  cases hc
  cases hs
  cases ht
  cases hm
  rfl

namespace EventsStorageSave

def saved (save : EventsStorageSave) (cat : Category) :
    Option (CategoryConfig × List SavedEvent) :=
  match save with
  | v1 es => (es.storage.lookup cat).map fun s =>
    (s.config, (HashMap.values s.events).map EventV1.saved)
  | v2 es => (es.storage.lookup cat).map fun s =>
    (s.config, (HashMap.values s.events).map EventV2.saved)
  | v3 es => (es.storage.lookup cat).map fun s =>
    (s.config, (HashMap.values s.events).map Event.saved)
  | v4 es => (es.storage.lookup cat).map fun s =>
    (s.config, (HashMap.values s.events).map Event.saved)

def Earlier : EventsStorageSave → Prop
  | v4 _ => False
  | _    => True

-- The times which the casts leave as they are: those of the first version go through an `f64`.
def times : EventsStorageSave → Set Int
  | v1 _ => Set.Icc (-2 ^ 53) (2 ^ 53)
  | v2 _ => Set.Ico (-2 ^ 63) (2 ^ 63)
  | _    => Set.univ

-- What all versions keep to.
structure Fine (save : EventsStorageSave) : Prop where
  total    : ∀ cat, (save.saved cat).isSome
  category : ∀ cat config vs, save.saved cat = some (config, vs) → ∀ v ∈ vs, v.category = cat
  bounded  : ∀ cat config vs, save.saved cat = some (config, vs) → vs.length ≤ config.maxEvents
  unique   : ∀ cat config vs,
    save.saved cat = some (config, vs) → config.unique → (vs.map SavedEvent.src).Nodup
  times    : ∀ cat config vs,
    save.saved cat = some (config, vs) → ∀ v ∈ vs, ∃ n ∈ save.times, v.created = some (n : Rat)

def Keeps (save : EventsStorageSave) (e : Event) : Prop :=
  ∃ config vs, save.saved e.category = some (config, vs) ∧ e.saved ∈ vs

-- The events as they are read today.
def events (save : EventsStorageSave) (cat : Category) : Option (CategoryConfig × List Event) :=
  match save with
  | v1 es => (es.storage.lookup cat).map fun s =>
    (s.config, (HashMap.values s.events).map fun v => v.toV2.toEvent)
  | v2 es => (es.storage.lookup cat).map fun s =>
    (s.config, (HashMap.values s.events).map EventV2.toEvent)
  | v3 es => (es.storage.lookup cat).map fun s => (s.config, HashMap.values s.events)
  | v4 es => (es.storage.lookup cat).map fun s => (s.config, HashMap.values s.events)

end EventsStorageSave

theorem EventV1.saved_toEvent {v : EventV1} {n : Int} (hn : n ∈ Set.Icc (-2 ^ 53) (2 ^ 53))
    (h : v.saved.created = some (n : Rat)) : v.toV2.toEvent.saved = v.saved := by
  have hv : v.created = n := by exact_mod_cast Option.some.inj h
  have ht : v.toV2.toEvent.created = v.created := F64.toI64_ofI64 (hv ▸ hn.1) (hv ▸ hn.2)
  rw [Event.saved, ht]
  rfl

theorem EventV2.saved_toEvent {v : EventV2} {n : Int} (hn : n ∈ Set.Ico (-2 ^ 63) (2 ^ 63))
    (h : v.saved.created = some (n : Rat)) : v.toEvent.saved = v.saved := by
  have ht : v.toEvent.created = n := F64.toI64_of_whole h hn.1 hn.2
  have hv : v.created.value = some (n : Rat) := h
  rw [Event.saved, EventV2.saved, ht, hv]
  rfl

theorem saved_of_read {V : Type*} {save : V → SavedEvent} {read : V → Event} {vs : List V}
    {times : Set Int}
    (hs : ∀ v, ∀ n ∈ times, (save v).created = some (n : Rat) → (read v).saved = save v)
    (ht : ∀ v ∈ vs.map save, ∃ n ∈ times, v.created = some (n : Rat)) :
    vs.map save = (vs.map read).map Event.saved := by
  rw [List.map_map]
  refine List.map_congr_left fun v hv => ?_
  obtain ⟨n, hn, hc⟩ := ht _ <| List.mem_map_of_mem hv
  exact (hs v n hn hc).symm

-- Within these times an event is read as it was saved.
theorem EventsStorageSave.Fine.saved_eq {save : EventsStorageSave} (h : save.Fine)
    (cat : Category) :
    save.saved cat = (save.events cat).map fun p => (p.1, p.2.map Event.saved) := by
  have ht := h.times cat
  cases save
  case v1 es =>
    simp only [saved, events, Option.map_map] at ht ⊢
    cases hl : es.storage.lookup cat
    case none   => rfl
    case some s =>
      rw [hl] at ht
      exact congrArg (fun es => some (s.config, es)) <|
        saved_of_read (fun _ _ => EventV1.saved_toEvent) <| ht _ _ rfl
  case v2 es =>
    simp only [saved, events, Option.map_map] at ht ⊢
    cases hl : es.storage.lookup cat
    case none   => rfl
    case some s =>
      rw [hl] at ht
      exact congrArg (fun es => some (s.config, es)) <|
        saved_of_read (fun _ _ => EventV2.saved_toEvent) <| ht _ _ rfl
  case v3 es => rw [saved, events, Option.map_map]; rfl
  case v4 es => rw [saved, events, Option.map_map]; rfl

variable [Sha256]

-- The saved events have got their ids of today.
structure Migrated (config : CategoryConfig) (es : List Event) (s : Events) : Prop where
  config : s.config = config
  saved  : ∀ i e, s.events.lookup i = some e → e ∈ es ∧ e.getId = i
  total  : ∀ e ∈ es, e.getId ∈ s.events

theorem migrated_rekeyed {config : CategoryConfig} {es es' : List Event}
    (h : ∀ e, e ∈ es ↔ e ∈ es') : Migrated config es' (.rekeyed config es) where
  config       := rfl
  saved i e hl := by
    obtain ⟨f, hf, he⟩ := List.mem_map.mp <| HashMap.mem_of_lookup_collect hl
    cases he
    exact ⟨h _ |>.mp hf, rfl⟩
  total e he   := HashMap.mem_collect <| List.mem_map_of_mem (f := fun e : Event => (e.getId, e)) <|
    h e |>.mpr he

omit [Sha256] in
-- The first migration keeps the events but for the cast of the time.
theorem mem_toLatest {s : EventsV1} {e : Event} :
    e ∈ (HashMap.values s.toLatest.events).map EventV2.toEvent ↔
      e ∈ (HashMap.values s.events).map fun v => v.toV2.toEvent := by
  simp only [List.mem_map, HashMap.mem_values]
  constructor
  case mp  =>
    rintro ⟨v, ⟨k, hk⟩, rfl⟩
    obtain ⟨p, hp, he⟩ := List.mem_map.mp <| HashMap.mem_of_lookup_collect hk
    cases he
    exact ⟨p.2, ⟨p.1, HashMap.mem_pairs.mp hp⟩, rfl⟩
  case mpr =>
    rintro ⟨v, ⟨k, hk⟩, rfl⟩
    have hm : (k.into, v.toV2) ∈ (HashMap.pairs s.events).map fun p => (p.1.into, p.2.toV2) :=
      List.mem_map.mpr ⟨(k, v), HashMap.mem_pairs.mpr hk, rfl⟩
    obtain ⟨w, hw⟩ := HashMap.mem_iff_lookup.mp <| HashMap.mem_collect hm
    obtain ⟨p, hp, he⟩ := List.mem_map.mp <| HashMap.mem_of_lookup_collect hw
    injection he with hk' hw'
    have hv : s.events.lookup k = some p.2 := U256V1.into_inj hk' ▸ HashMap.mem_pairs.mp hp
    refine ⟨w, ⟨_, hw⟩, ?_⟩
    rw [← hw', Option.some.inj <| hk.symm.trans hv]

theorem migrated_map {V : Type*} {old : V → CategoryConfig × List Event} {new : V → Events}
    (h : ∀ s, Migrated (old s).1 (old s).2 (new s)) (o : Option V) :
    Option.Rel (fun p s => Migrated p.1 p.2 s) (o.map old) (o.map new) := by
  cases o
  case none   => exact .none
  case some s => exact .some <| h s

-- Whatever an earlier version has saved, nothing of it is lost and nothing comes in.
theorem EventsStorageSave.toLatest_events {save : EventsStorageSave} (h : save.Earlier)
    (cat : Category) :
    Option.Rel (fun p s => Migrated p.1 p.2 s) (save.events cat)
      (save.toLatest.storage.lookup cat) := by
  cases save
  case v4    => exact h.elim
  case v1 es =>
    simp only [events, toLatest, EventsStorageV1.toLatest, EventsStorageV2.toLatest,
      HashMap.lookup_collect_pairs, Option.map_map]
    exact migrated_map (fun _ => migrated_rekeyed fun _ => mem_toLatest) _
  case v2 es =>
    simp only [events, toLatest, EventsStorageV2.toLatest, HashMap.lookup_collect_pairs]
    exact migrated_map (fun _ => migrated_rekeyed fun _ => .rfl) _
  case v3 es =>
    simp only [events, toLatest, EventsStorageV3.toLatest, HashMap.lookup_collect_pairs]
    exact migrated_map (fun _ => migrated_rekeyed fun _ => .rfl) _

variable {save : EventsStorageSave}

theorem Migrated.wf {config : CategoryConfig} {es : List Event} {s : Events} {cat : Category}
    (h : Migrated config es s) (hc : ∀ e ∈ es, e.category = cat)
    (hb : es.length ≤ config.maxEvents) (hu : config.unique → (es.map Event.src).Nodup) :
    s.Wf cat where
  keyed i e hl        := (h.saved i e hl).2
  category i e hl     := hc e (h.saved i e hl).1
  bounded             := by
    have hs : s.events.keys ⊆ es.map Event.getId := by
      intro i hi
      obtain ⟨e, hl⟩ := HashMap.mem_iff_lookup.mp <| AList.mem_keys.mpr hi
      obtain ⟨hm, rfl⟩ := h.saved i e hl
      exact List.mem_map_of_mem hm
    rw [h.config]
    calc s.events.keys.length
      _ ≤ (es.map Event.getId).length := (List.subperm_of_subset s.events.keys_nodup hs).length_le
      _ = es.length                   := List.length_map _
      _ ≤ config.maxEvents            := hb
  unique hs i j e f he hf hsrc := by
    obtain ⟨hme, rfl⟩ := h.saved i e he
    obtain ⟨hmf, rfl⟩ := h.saved j f hf
    rw [List.inj_on_of_nodup_map (hu <| h.config ▸ hs) hme hmf hsrc]

theorem EventsStorageSave.exists_migrated (he : save.Earlier) (hf : save.Fine) (cat : Category) :
    ∃ config es evs, save.saved cat = some (config, es.map Event.saved) ∧
      save.toLatest.storage.lookup cat = some evs ∧ Migrated config es evs := by
  obtain ⟨v, hv⟩ := Option.isSome_iff_exists.mp <| hf.total cat
  obtain ⟨⟨config, es⟩, hs, rfl⟩ := Option.map_eq_some_iff.mp <| (hf.saved_eq cat).symm.trans hv
  have hr := toLatest_events he cat
  rw [hs] at hr
  cases hl : save.toLatest.storage.lookup cat
  case none     =>
    rw [hl] at hr
    cases hr
  case some evs =>
    rw [hl] at hr
    cases hr
    exact ⟨config, es, evs, hv, rfl, ‹_›⟩

theorem EventsStorageSave.wf_toLatest (he : save.Earlier) (hf : save.Fine) :
    save.toLatest.Wf where
  total cat         := by
    obtain ⟨_, _, evs, _, hl, _⟩ := exists_migrated he hf cat
    exact HashMap.mem_iff_lookup.mpr ⟨evs, hl⟩
  events cat evs hl := by
    obtain ⟨config, es, _, hs, hl', hm⟩ := exists_migrated he hf cat
    cases hl.symm.trans hl'
    have hc : ∀ e ∈ es, e.category = cat :=
      fun e he => hf.category _ _ _ hs e.saved <| List.mem_map_of_mem he
    have hb : es.length ≤ config.maxEvents := by
      rw [← List.length_map Event.saved]
      exact hf.bounded _ _ _ hs
    have hu (h : config.unique) : (es.map Event.src).Nodup := by
      have hn := hf.unique _ _ _ hs h
      rw [List.map_map] at hn
      exact hn
    exact hm.wf hc hb hu

theorem EventsStorageSave.holds_toLatest (he : save.Earlier) (hf : save.Fine)
    (hi : Set.InjOn Event.getId { e | save.Keeps e }) {e : Event} :
    save.toLatest.Holds e ↔ save.Keeps e := by
  obtain ⟨config, es, evs, hs, hl, hm⟩ := exists_migrated he hf e.category
  rw [EventsStorage.holds_iff hl]
  constructor
  case mp  => exact fun h => ⟨config, _, hs, List.mem_map_of_mem (hm.saved _ _ h).1⟩
  case mpr =>
    intro h
    have hk := h
    obtain ⟨_, _, hs', hes⟩ := h
    cases hs.symm.trans hs'
    have he := (List.mem_map_of_injective Event.saved_injective).mp hes
    obtain ⟨f, hf'⟩ := HashMap.mem_iff_lookup.mp <| hm.total e he
    obtain ⟨hfm, hid⟩ := hm.saved _ _ hf'
    have hc : f.category = e.category := hf.category _ _ _ hs f.saved <| List.mem_map_of_mem hfm
    have hfk : save.Keeps f := ⟨config, _, hc ▸ hs, List.mem_map_of_mem hfm⟩
    rw [hf', hi hfk hk hid]

-- Also what the first version has written, which did not say which version it was.
def Reads [Yaml EventsStorageSave] [Yaml EventsStorageV1] (data : String)
    (save : EventsStorageSave) : Prop :=
  Yaml.fromStr data = some save ∨
  (Yaml.fromStr data : Option EventsStorageSave) = none ∧
    ∃ es, Yaml.fromStr data = some es ∧ save = .v1 es

variable [Yaml EventsStorageSave] [Yaml EventsStorageV1]

theorem Reads.fromStr {data : String} (h : Reads data save) :
    EventsStorageSave.fromStr data = some save.toLatest := by
  unfold EventsStorageSave.fromStr
  cases h
  case inl h => rw [h]
  case inr h =>
    obtain ⟨hn, es, hes, rfl⟩ := h
    rw [hn, hes]
    rfl

-- A node which reads what any version has saved.
abbrev Messages.started (id : NodeID) (storage : HashMap String String) : Messages :=
  @Messages.new EventsStorage.yaml id storage

-- A node which starts with what an earlier version has saved has all the events, under their ids
-- of today, and no other ones.
theorem migrates {data : String} {storage : HashMap String String} (id : NodeID)
    (hr : Reads data save) (hd : data ≠ "") (hs : storage.lookup gossipName = some data)
    (he : save.Earlier) (hf : save.Fine) (hi : Set.InjOn Event.getId { e | save.Keeps e }) :
    (Messages.started id storage).events.Wf ∧
    (∀ e, (Messages.started id storage).events.Holds e ↔ save.Keeps e) ∧
    ∀ cat, ((Messages.started id storage).events.storage.lookup cat).map Events.config =
      (save.saved cat).map Prod.fst := by
  have hn : (Messages.started id storage).events = save.toLatest := by
    have hl : @Yaml.fromStr _ EventsStorage.yaml data = some save.toLatest := hr.fromStr
    simp only [Messages.started, Messages.new, hs, Option.getD_some, hd, ne_eq, not_false_eq_true,
      if_true, hl]
  rw [hn]
  refine ⟨EventsStorageSave.wf_toLatest he hf,
    fun _ => EventsStorageSave.holds_toLatest he hf hi, fun cat => ?_⟩
  obtain ⟨_, _, _, hs, hl, hm⟩ := EventsStorageSave.exists_migrated he hf cat
  rw [hs, hl, Option.map_some, Option.map_some, hm.config]

end Migration

-- What the very first version has written: the events are not under the ids which they have today.
namespace Untagged

attribute [local instance] Sha256.rolling

def ones (b : UInt8) : U256V1 where
  bytes        := List.replicate 32 b
  length_bytes := List.length_replicate

def hello : EventV1 where
  category := .textMessage
  src      := ones 1
  created  := 1
  msg      := "hello"

def reply : EventV1 where
  category := .textMessage
  src      := ones 2
  created  := 1700000000000
  msg      := "hi"

def info : EventV1 where
  category := .nodeInfo
  src      := ones 1
  created  := 2
  msg      := "one"

def save : EventsStorageV1 where
  storage := .collect [
    (.textMessage, {
      config := { unique := false, maxEvents := 50 }
      events := .collect [(ones 3, hello), (ones 4, reply)]
    }),
    (.nodeInfo, {
      config := { unique := true, maxEvents := 100 }
      events := .collect [(ones 5, info)]
    })
  ]

-- A byte in each line.
def rows (u : U256V1) : String :=
  "\n        ".intercalate <| u.bytes.map fun b => "- " ++ toString b

def entry (category : String) (key : U256V1) (v : EventV1) : String :=
  "      ? " ++ rows key ++ "\n" ++
  "      : category: " ++ category ++ "\n" ++
  "        src:\n        " ++ rows v.src ++ "\n" ++
  "        created: " ++ toString v.created ++ "\n" ++
  "        msg: " ++ v.msg ++ "\n"

def text : String :=
  "storage:\n" ++
  "  TextMessage:\n    config:\n      unique: false\n      max_events: 50\n    events:\n" ++
  entry "TextMessage" (ones 3) hello ++
  entry "TextMessage" (ones 4) reply ++
  "  NodeInfo:\n    config:\n      unique: true\n      max_events: 100\n    events:\n" ++
  entry "NodeInfo" (ones 5) info

-- There is no tag which says which version it is.
noncomputable abbrev tagged : Yaml EventsStorageSave :=
  .table []

noncomputable abbrev untagged : Yaml EventsStorageV1 :=
  .table [(save, text)]

attribute [local instance] tagged untagged

abbrev sample : EventsStorageSave :=
  .v1 save

def today (v : EventV1) : Event where
  category := v.category
  src      := v.src.into
  created  := v.created
  msg      := v.msg

theorem saved_sample (cat : Category) : sample.saved cat =
    if cat = .textMessage then
      some ({ unique := false, maxEvents := 50 }, [(today reply).saved, (today hello).saved])
    else
      some ({ unique := true, maxEvents := 100 }, [(today info).saved]) := by
  cases cat <;> rfl

theorem keeps_sample {e : Event} : sample.Keeps e ↔ e ∈ [hello, reply, info].map today := by
  constructor
  case mp  =>
    rintro ⟨config, vs, hs, he⟩
    rw [saved_sample] at hs
    cases hc : e.category <;> rw [hc] at hs <;> cases hs
    case textMessage =>
      cases List.mem_pair.mp he
      case inl he => exact Event.saved_injective he ▸ .tail _ (.head _)
      case inr he => exact Event.saved_injective he ▸ .head _
    case nodeInfo    =>
      exact Event.saved_injective (List.mem_singleton.mp he) ▸ .tail _ (.tail _ (.head _))
  case mpr =>
    intro he
    simp only [List.map_cons, List.map_nil, List.mem_cons, List.not_mem_nil, or_false] at he
    obtain rfl | rfl | rfl := he
    · exact ⟨_, _, saved_sample .textMessage, .tail _ (.head _)⟩
    · exact ⟨_, _, saved_sample .textMessage, .head _⟩
    · exact ⟨_, _, saved_sample .nodeInfo, .head _⟩

theorem fine_sample : sample.Fine where
  total cat           := by
    rw [saved_sample]
    cases cat <;> rfl
  category cat _ _ hs := by
    rw [saved_sample] at hs
    cases cat <;> cases hs
    case textMessage => simp [today, hello, reply, Event.saved]
    case nodeInfo    => simp [today, info, Event.saved]
  bounded cat _ _ hs  := by
    rw [saved_sample] at hs
    cases cat <;> cases hs <;> decide
  unique cat _ _ hs h := by
    rw [saved_sample] at hs
    cases cat <;> cases hs
    case textMessage => cases h
    case nodeInfo    => exact List.nodup_singleton _
  times cat _ _ hs    := by
    rw [saved_sample] at hs
    cases cat <;> cases hs
    case textMessage =>
      intro v hv
      cases List.mem_pair.mp hv <;> subst v
      case inl => exact ⟨reply.created, ⟨by decide, by decide⟩, rfl⟩
      case inr => exact ⟨hello.created, ⟨by decide, by decide⟩, rfl⟩
    case nodeInfo    =>
      exact List.forall_mem_singleton.mpr ⟨info.created, ⟨by decide, by decide⟩, rfl⟩

theorem nodup_sample : (([hello, reply, info].map today).map Event.getId).Nodup := by
  decide +kernel

theorem text_ne_empty : text ≠ "" := by
  intro h
  have := congrArg String.length h
  simp [text, String.length_append] at this

def storage : HashMap String String :=
  AList.singleton gossipName text

theorem migrates_untagged : (Messages.started .zero storage).events.Wf ∧
    ∀ e, (Messages.started .zero storage).events.Holds e ↔ e ∈ [hello, reply, info].map today := by
  have hi : Set.InjOn Event.getId { e | sample.Keeps e } := by
    intro e he f hf hid
    exact List.inj_on_of_nodup_map nodup_sample (keeps_sample.mp he) (keeps_sample.mp hf) hid
  have hr : Reads text sample := .inr ⟨by simp [Yaml.fromStr], save, by simp [Yaml.fromStr], rfl⟩
  have hs : storage.lookup gossipName = some text := rfl
  obtain ⟨hw, hholds, _⟩ := migrates .zero hr text_ne_empty hs trivial fine_sample hi
  exact ⟨hw, fun e => (hholds e).trans keeps_sample⟩

end Untagged

end GossipEvents
