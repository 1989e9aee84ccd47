import Fledger.GossipEvents.Handlers

namespace GossipEvents

namespace Events

variable [Sha256] {s s' : Events} {cat : Category} {msg : Event}
  {rehash : HashMap.Rehash U256 Event}

theorem insert_of_refused (h : (s.insert rehash msg).2 = false) : (s.insert rehash msg).1 = s := by
  revert h
  unfold insert insertUnique
  split
  case isTrue  => exact fun _ => rfl
  case isFalse =>
    split
    case isFalse =>
      intro h
      cases h
    case isTrue  =>
      split
      case h_2 =>
        intro h
        cases h
      case h_1 =>
        split
        case isTrue  => exact fun _ => rfl
        case isFalse =>
          intro h
          cases h

-- The order of the map does not matter for the invariant.
theorem Wf.of_lookup (h : s.Wf cat) (hc : s'.config = s.config)
    (hl : ∀ i, s'.events.lookup i = s.events.lookup i) : s'.Wf cat where
  keyed i e he        := h.keyed i e <| hl i ▸ he
  category i e he     := h.category i e <| hl i ▸ he
  bounded             := by
    have hk : s'.events.keys.Perm s.events.keys := by
      apply List.perm_ext_iff_of_nodup s'.events.keys_nodup s.events.keys_nodup |>.mpr
      intro i
      rw [← AList.mem_keys, ← AList.mem_keys, HashMap.mem_iff_lookup, HashMap.mem_iff_lookup, hl]
    rw [hk.length_eq, hc]
    exact h.bounded
  unique hu i j e f   := by
    rw [hl, hl]
    exact h.unique (hc ▸ hu) i j e f

end Events

namespace EventsStorage

variable {s s' : EventsStorage} {msg e : Event} {rehash : HashMap.Rehash U256 Event}

-- What is left of the events if the order of the maps is forgotten.
def contents (s : EventsStorage) (cat : Category) :
    Option (CategoryConfig × (U256 → Option Event)) :=
  (s.storage.lookup cat).map fun evs => (evs.config, fun id => evs.events.lookup id)

variable [Sha256]

theorem contents_of_refused (h : (s.addEvent rehash msg).2 = false) :
    (s.addEvent rehash msg).1.contents = s.contents := by
  cases hl : s.storage.lookup msg.category
  case none     => rw [addEvent, hl]
  case some evs =>
    rw [addEvent_eq hl] at h ⊢
    funext cat
    rw [contents, contents, HashMap.lookup_insert_eq, Events.insert_of_refused h]
    split
    case isTrue hc => rw [hc, hl]
    case isFalse   => rfl

theorem Wf.of_contents (h : s.Wf) (hc : s'.contents = s.contents) : s'.Wf where
  total cat         := by
    obtain ⟨evs, hl⟩ := h.lookup cat
    have hm := congrFun hc cat
    rw [contents, contents, hl, Option.map_some] at hm
    obtain ⟨evs', hl', _⟩ := Option.map_eq_some_iff.mp hm
    exact HashMap.mem_iff_lookup.mpr ⟨evs', hl'⟩
  events cat evs hl := by
    obtain ⟨evs', hl'⟩ := h.lookup cat
    have hm := congrFun hc cat
    rw [contents, contents, hl, hl', Option.map_some, Option.map_some, Option.some.injEq,
      Prod.mk.injEq] at hm
    exact h.events _ _ hl' |>.of_lookup hm.1 <| congrFun hm.2

theorem holds_iff_contents :
    s.Holds e ↔ ((s.contents e.category).bind fun c => c.2 e.getId) = some e := by
  simp only [Holds, contents, Option.bind_map, Function.comp_def, Option.bind_eq_some_iff]

-- The events can be written, and what is written has the same contents.
def Saves [Yaml EventsStorage] (s : EventsStorage) : Prop :=
  ∃ (data : String) (s' : EventsStorage), Yaml.toString s = some data ∧ data ≠ "" ∧
    Yaml.fromStr data = some s' ∧ s'.contents = s.contents

end EventsStorage

-- What comes to a node in its life.
inductive Input
  | gossip (env : Env) (msg : GossipIn)
  | restart

namespace Messages

variable [Sha256] [Yaml EventsStorage] {m m' : Messages} {env : Env} {i : Input} {msg : GossipIn}

-- The node is started again with what it has written.
def restart (m : Messages) : Messages :=
  new m.id m.storage

def take (m : Messages) : Input → Messages
  | .gossip env msg => (m.processMessage env msg).1
  | .restart        => m.restart

def after (m : Messages) (log : List Input) : Messages :=
  log.foldl take m

-- The events can be written whenever something comes in.
def Writes (m : Messages) : List Input → Prop
  | []       => True
  | i :: log => (m.take i).events.Saves ∧ (m.take i).Writes log

-- A restart would not lose or change any events.
def Saved (m : Messages) : Prop :=
  m.restart.events.contents = m.events.contents

omit [Sha256] in
theorem restart_events (h : m'.storage = m.storage) : m'.restart.events = m.restart.events := by
  rw [restart, restart, h]
  rfl

omit [Sha256] in
theorem saved_new {id : NodeID} {storage : HashMap String String} : (new id storage).Saved :=
  rfl

omit [Sha256] in
theorem saved_store (h : m.events.Saves) : m.store.Saved := by
  obtain ⟨data, s', hs, hd, hr, hc⟩ := h
  have hl : m.store.storage.lookup gossipName = some data := by
    rw [store, hs]
    exact AList.lookup_insert _
  have he : m.store.restart.events = s' := by
    simp only [restart, new, hl, Option.getD_some, hd, ne_eq, not_false_eq_true, if_true, hr]
  rw [Saved, he, store_events, hc]

omit [Sha256] in
theorem Saved.of_contents (h : m.Saved) (hs : m'.storage = m.storage)
    (hc : m'.events.contents = m.events.contents) : m'.Saved := by
  rw [Saved, restart_events hs, hc]
  exact h

omit [Yaml EventsStorage] in
theorem storage_addEvents (m : Messages) (env : Env) (es : List Event) :
    (m.addEvents env es).1.storage = m.storage := by
  induction es generalizing m env
  case nil          => rfl
  case cons e es hi => exact hi (m.takeEvent env e) env.next

omit [Yaml EventsStorage] in
theorem contents_addEvents (m : Messages) (env : Env) (es : List Event)
    (h : (m.addEvents env es).2 = []) :
    (m.addEvents env es).1.events.contents = m.events.contents := by
  induction es generalizing m env
  case nil          => rfl
  case cons e es hi =>
    rw [addEvents_cons_snd] at h
    split at h
    case isTrue     => cases h
    case isFalse hr =>
      rw [addEvents_cons_fst, hi _ _ h]
      exact EventsStorage.contents_of_refused <| Bool.eq_false_iff.mpr hr

-- The events of a message are added, and they are written unless this changes nothing.
theorem processMessage_cases (m : Messages) (env : Env) (msg : GossipIn) :
    ∃ m' : Messages,
      ((m.processMessage env msg).1 = m'.store ∨
        (m.processMessage env msg).1 = m' ∧ m'.events.contents = m.events.contents) ∧
      m'.storage = m.storage ∧ m'.events = (m.addEvents env msg.carried).1.events := by
  cases msg
  case tick                =>
    simp only [processMessage]
    split <;> exact ⟨_, .inr ⟨rfl, rfl⟩, rfl, rfl⟩
  case updateNodeList ids  => exact ⟨_, .inr ⟨rfl, rfl⟩, rfl, rfl⟩
  case addEvent e          =>
    cases ha : (m.events.addEvent (env 0) e).2
    case false =>
      simp only [processMessage, addEvent, ha]
      exact ⟨_, .inr ⟨rfl, EventsStorage.contents_of_refused ha⟩, rfl, rfl⟩
    case true  =>
      simp only [processMessage, addEvent, ha, if_true]
      exact ⟨_, .inl rfl, rfl, rfl⟩
  case fromNetwork src msg =>
    cases msg
    case requestEventIDs   => exact ⟨_, .inr ⟨rfl, rfl⟩, rfl, rfl⟩
    case requestEvents ids => exact ⟨_, .inr ⟨rfl, rfl⟩, rfl, rfl⟩
    case knownEventIDs ids =>
      simp only [processMessage, processNodeMessage, nodeKnownEventIds]
      split <;> exact ⟨_, .inr ⟨rfl, rfl⟩, rfl, rfl⟩
    case events es         =>
      simp only [processMessage, processNodeMessage, nodeEvents]
      split
      case isTrue     => exact ⟨_, .inl rfl, storage_addEvents .., rfl⟩
      case isFalse hn =>
        have hc := contents_addEvents m env es <| not_not.mp hn
        exact ⟨_, .inr ⟨rfl, hc⟩, storage_addEvents .., rfl⟩

theorem events_processMessage (m : Messages) (env : Env) (msg : GossipIn) :
    (m.processMessage env msg).1.events = (m.addEvents env msg.carried).1.events := by
  obtain ⟨m', hm, _, he⟩ := processMessage_cases m env msg
  cases hm
  case inl hm => rw [hm, store_events, he]
  case inr hm => rw [hm.1, he]

theorem Saved.take (h : m.Saved) (hs : (m.take i).events.Saves) : (m.take i).Saved := by
  cases i
  case restart        => exact saved_new
  case gossip env msg =>
    obtain ⟨m', hm, hst, _⟩ := processMessage_cases m env msg
    cases hm
    case inl hm =>
      rw [Messages.take, hm] at hs ⊢
      exact saved_store <| store_events ▸ hs
    case inr hm =>
      rw [Messages.take, hm.1]
      exact h.of_contents hst hm.2

omit [Yaml EventsStorage] in
theorem wf_addEvents {es : List Event} (h : m.events.Wf) : (m.addEvents env es).1.events.Wf := by
  induction es generalizing m env
  case nil          => exact h
  case cons e es hi => exact hi (m := m.takeEvent env e) h.addEvent

theorem wf_take (h : m.events.Wf) (hs : m.Saved) : (m.take i).events.Wf := by
  cases i
  case gossip env msg =>
    rw [take, events_processMessage]
    exact wf_addEvents h
  case restart => exact h.of_contents hs

theorem Saved.after {log : List Input} (h : m.events.Wf) (hs : m.Saved) (hw : m.Writes log) :
    (m.after log).events.Wf ∧ (m.after log).Saved := by
  induction log generalizing m
  case nil           => exact ⟨h, hs⟩
  case cons i log hi => exact hi (wf_take h hs) (hs.take hw.1) hw.2

-- Whatever a node does between its restarts, its invariant holds, and another restart does not lose
-- any event, nor does it bring one in.
theorem persists {id : NodeID} {storage : HashMap String String} {log : List Input}
    (h : (new id storage).events.Wf) (hw : (new id storage).Writes log) :
    ((new id storage).after log).events.Wf ∧
    (((new id storage).after log).restart.events.contents =
      ((new id storage).after log).events.contents) ∧
    ∀ e, ((new id storage).after log).restart.events.Holds e ↔
      ((new id storage).after log).events.Holds e := by
  obtain ⟨hf, hs⟩ := Saved.after h saved_new hw
  refine ⟨hf, hs, fun e => ?_⟩
  rw [EventsStorage.holds_iff_contents, EventsStorage.holds_iff_contents, hs]

end Messages

-- A node which is restarted after its first event.
namespace Restarted

attribute [local instance] Sha256.rolling

def one : EventsStorage :=
  (EventsStorage.new.addEvent .same (sampleText 0)).1

abbrev yaml : Yaml EventsStorage where
  toString s   := some <| if s.eventIds = [] then "none" else "one"
  fromStr data := if data = "none" then some .new else if data = "one" then some one else none

attribute [local instance] yaml

def log : List Input := [
  .gossip (fun _ => .same) (.addEvent (sampleText 0)),
  .restart,
  .gossip (fun _ => .same) .tick
]

theorem saves_one : one.Saves :=
  ⟨"one", one, by decide, by decide, rfl, rfl⟩

theorem holds_one : one.Holds (sampleText 0) :=
  EventsStorage.holds_addEvent_of_fits EventsStorage.wf_new fits_new rfl

theorem persists_log : ((Messages.new .zero ∅).after log).restart.events.Holds (sampleText 0) := by
  have hi : (Messages.new .zero ∅).events.Wf := EventsStorage.wf_new
  have hw : (Messages.new .zero ∅).Writes log := ⟨saves_one, saves_one, saves_one, trivial⟩
  have hp := Messages.persists hi hw
  exact hp.2.2 (sampleText 0) |>.mpr holds_one

end Restarted

end GossipEvents
