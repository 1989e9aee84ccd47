import Fledger.GossipEvents.Restarts
import Fledger.Lib.Cluster

namespace GossipEvents

section Theory

variable [Sha256]

-- What is read is what was written, in whatever order.
def EventsStorage.Rereads [Yaml EventsStorage] : Prop :=
  ∀ (s : EventsStorage) (data : String), Yaml.toString s = some data →
    ∀ s' : EventsStorage, Yaml.fromStr data = some s' → s'.contents = s.contents

structure EventsStorage.Genuine (F : Event → Prop) (s : EventsStorage) : Prop where
  wf     : s.Wf
  events : ∀ e, s.Holds e → F e

def Input.Genuine (F : Event → Prop) : Input → Prop
  | .gossip _ msg => ∀ e ∈ msg.carried, F e
  | .restart      => True

def GossipOut.Genuine (F : Event → Prop) : GossipOut → Prop
  | .toNetwork _ (.events events) => ∀ e ∈ events, F e
  | .toNetwork _ _                => True
  | .newEvent e                   => F e

variable {F : Event → Prop}

namespace EventsStorage

variable {s s' : EventsStorage} {msg : Event} {rehash : HashMap.Rehash U256 Event}

theorem genuine_new : Genuine F new where
  wf       := wf_new
  events e := by
    rintro ⟨evs, hl, he⟩
    cases hc : e.category <;> rw [hc] at hl <;> cases hl <;> cases he

theorem Genuine.of_contents (h : s.Genuine F) (hc : s'.contents = s.contents) : s'.Genuine F where
  wf          := h.wf.of_contents hc
  events e he := h.events e <| holds_iff_contents.mpr <| hc ▸ holds_iff_contents.mp he

theorem Genuine.addEvent (h : s.Genuine F) (hm : F msg) : (s.addEvent rehash msg).1.Genuine F where
  wf          := h.wf.addEvent
  events e he := by
    cases holds_of_holds_addEvent h.wf he
    case inl he => exact h.events e he
    case inr he => exact he ▸ hm

end EventsStorage

namespace Messages

variable {m m' : Messages} {env : Env} {i : Input} {msg : GossipIn} {es : List Event}
  {src : NodeID} {o : GossipOut}

theorem genuine_addEvents (h : m.events.Genuine F) (he : ∀ e ∈ es, F e) :
    (m.addEvents env es).1.events.Genuine F := by
  induction es generalizing m env
  case nil          => exact h
  case cons e es hi =>
    have ⟨he, hes⟩ := List.forall_mem_cons.mp he
    exact hi (m := m.takeEvent env e) (h.addEvent he) hes

theorem genuine_sendEvents (he : ∀ e ∈ es, F e) (ho : o ∈ m.sendEvents src es) : o.Genuine F := by
  cases mem_sendEvents.mp ho
  case inl hn =>
    obtain ⟨_, _, _, _, rfl⟩ := hn
    trivial
  case inr hn =>
    obtain ⟨e, hm, rfl⟩ := hn
    exact he e hm

variable [Yaml EventsStorage]

-- Also what the node would start with is genuine.
structure Genuine (F : Event → Prop) (m : Messages) : Prop where
  events : m.events.Genuine F
  saved  : m.restart.events.Genuine F

def tells (m : Messages) : Input → List GossipOut
  | .gossip env msg => (m.processMessage env msg).2
  | .restart        => []

theorem genuine_start {id : NodeID} {ds : HashMap String String} (h : ds.lookup gossipName = none) :
    (new id ds).Genuine F := by
  have hn : (new id ds).events = .new := by
    simp only [new, h, Option.getD_none, ne_eq, not_true_eq_false, if_false]
  have hg : (new id ds).events.Genuine F := hn ▸ EventsStorage.genuine_new
  exact ⟨hg, hg⟩

theorem Genuine.restart_store (hy : EventsStorage.Rereads) (h : m.Genuine F) :
    m.store.restart.events.Genuine F := by
  cases hs : Yaml.toString m.events
  case none      =>
    have hm : m.store = m := by rw [store, hs]
    rw [hm]
    exact h.saved
  case some data =>
    have hl : m.store.storage.lookup gossipName = some data := by
      rw [store, hs]
      exact AList.lookup_insert _
    simp only [restart, new, hl, Option.getD_some]
    split
    case isFalse => exact EventsStorage.genuine_new
    case isTrue  =>
      cases hr : (Yaml.fromStr data : Option EventsStorage)
      case none    => exact EventsStorage.genuine_new
      case some s' => exact h.events.of_contents <| hy _ _ hs _ hr

theorem Genuine.take (hy : EventsStorage.Rereads) (h : m.Genuine F) (hi : i.Genuine F) :
    (m.take i).Genuine F := by
  cases i
  case restart        => exact ⟨h.saved, h.saved⟩
  case gossip env msg =>
    have he : (m.processMessage env msg).1.events.Genuine F :=
      events_processMessage m env msg ▸ genuine_addEvents h.events hi
    refine ⟨he, ?_⟩
    obtain ⟨m', hm, hs, _⟩ := processMessage_cases m env msg
    have hr : m'.restart.events.Genuine F := restart_events hs ▸ h.saved
    cases hm
    case inl hm =>
      rw [hm, store_events] at he
      have hg : m'.Genuine F := ⟨he, hr⟩
      rw [Messages.take, hm]
      exact hg.restart_store hy
    case inr hm =>
      rw [Messages.take, hm.1]
      exact hr

theorem Genuine.tells (h : m.Genuine F) (hi : i.Genuine F) (ho : o ∈ m.tells i) : o.Genuine F := by
  cases i
  case restart        => cases ho
  case gossip env msg =>
    cases msg
    case tick                =>
      simp only [Messages.tells, processMessage] at ho
      split at ho
      case isFalse => cases ho
      case isTrue  =>
        obtain ⟨_, _, rfl⟩ := List.mem_map.mp ho
        trivial
    case updateNodeList ids  =>
      obtain ⟨_, _, rfl⟩ := List.mem_map.mp ho
      trivial
    case addEvent e          =>
      simp only [Messages.tells, processMessage, Messages.addEvent] at ho
      split at ho
      case isFalse => cases ho
      case isTrue  => exact genuine_sendEvents hi ho
    case fromNetwork src msg =>
      cases msg
      case requestEventIDs   =>
        cases List.mem_singleton.mp ho
        trivial
      case knownEventIDs ids =>
        simp only [Messages.tells, processMessage, processNodeMessage, nodeKnownEventIds] at ho
        split at ho
        case isFalse => cases ho
        case isTrue  =>
          cases List.mem_singleton.mp ho
          trivial
      case requestEvents ids =>
        simp only [Messages.tells, processMessage, processNodeMessage, nodeRequestEvents] at ho
        split at ho
        case isFalse => cases ho
        case isTrue  =>
          cases List.mem_singleton.mp ho
          exact fun e he => h.events.events e <|
            (EventsStorage.mem_getEventsByIds h.events.wf).mp he |>.1
      case events es         =>
        exact genuine_sendEvents (fun e he => hi e <| (addEvents_frame m env es).2.2.1 e he) ho

end Messages

variable [Yaml EventsStorage]

-- The messages go from node to node, and only to the one they are sent to.
inductive Carries : NodeID → GossipOut → NodeID → Input → Prop
  | toNetwork {src dst : NodeID} {msg : ModuleMessage} (env : Env) :
    Carries src (.toNetwork dst msg) dst (.gossip env (.fromNetwork src msg))

-- What comes from the timer, the application and the connections, and the restarts.
def Outside : Input → Prop
  | .gossip _ (.fromNetwork _ _) => False
  | _                            => True

def network : Cluster NodeID Messages Input GossipOut where
  step _ m input m' out := m' = m.take input ∧ out = m.tells input
  carries               := Carries
  outside _ input       := Outside input

-- An application has given the event to the module of some node.
def HandedIn (net : Cluster.State NodeID Messages Input GossipOut) (e : Event) : Prop :=
  ∃ id env, (id, Input.gossip env (.addEvent e)) ∈ net.inputs

theorem keeps_genuine (hy : EventsStorage.Rereads) :
    network.Keeps (fun _ m => m.Genuine F) (fun _ i => i.Genuine F) (fun _ o => o.Genuine F) where
  state h hi hs  := hs.1 ▸ h.take hy hi
  output h hi hs := fun _ ho => h.tells hi (hs.2 ▸ ho)
  carried h hc   := by
    cases hc
    case toNetwork msg _ =>
      cases msg
      case events es => exact h
      all_goals exact fun _ he => absurd he List.not_mem_nil

omit [Sha256] [Yaml EventsStorage] in
theorem genuine_of_outside {input : Input} (h : Outside input)
    (hf : ∀ env e, input = .gossip env (.addEvent e) → F e) : input.Genuine F := by
  cases input
  case restart        => trivial
  case gossip env msg =>
    cases msg
    case fromNetwork => exact h.elim
    case addEvent e  => exact List.forall_mem_singleton.mpr <| hf env e rfl
    all_goals exact fun _ he => absurd he List.not_mem_nil

-- Whatever gets lost, comes twice or in another order, and whoever restarts: what a node holds,
-- sends or tells about has been handed in, and the storage of each node satisfies its invariants.
theorem only_handed_in (hy : EventsStorage.Rereads) {nodes : NodeID → Messages}
    (hn : ∀ id, ∃ ds, ds.lookup gossipName = none ∧ nodes id = .new id ds)
    {net : Cluster.State NodeID Messages Input GossipOut}
    (h : network.Runs (Cluster.start nodes) net) :
    (∀ id, (net.parties id).events.Wf ∧
      ∀ e, (net.parties id).events.Holds e → HandedIn net e) ∧
    ∀ id out, (id, out) ∈ net.outputs → out.Genuine (HandedIn net) := by
  have hi : ∀ e ∈ net.inputs, e.2.Genuine (HandedIn net) := fun e he =>
    genuine_of_outside (h.outside e he) fun env ev hev => ⟨e.1, env, hev ▸ he⟩
  have hs : ∀ id, (nodes id).Genuine (HandedIn net) := by
    intro id
    obtain ⟨ds, hl, hm⟩ := hn id
    exact hm ▸ Messages.genuine_start hl
  have hf := (keeps_genuine hy).runs (Cluster.fine_start hs) h hi
  exact ⟨fun id => ⟨(hf.parties id).events.wf, (hf.parties id).events.events⟩,
    fun id out ho => hf.outputs (id, out) ho⟩

end Theory

-- An application gives an event to a node, which is restarted then, and another node gets it.
namespace HandedIn

open Restarted (one holds_one)

attribute [local instance] Sha256.rolling

noncomputable abbrev yaml : Yaml EventsStorage :=
  .table [(one, "one")]

attribute [local instance] yaml

theorem rereads_one : EventsStorage.Rereads :=
  fun s data hs s' hr => congrArg _ <| Yaml.table_faithful (by decide) s data hs s' hr

noncomputable def fresh (id : NodeID) : Messages :=
  .new id ∅

def other : NodeID :=
  .ofPrefix [1]

theorem other_ne : other ≠ .zero := by
  decide +kernel

def env : Env :=
  fun _ => .same

def meet : Input :=
  .gossip env (.updateNodeList [other])

def given : Input :=
  .gossip env (.addEvent (sampleText 0))

def known : Input :=
  .gossip env (.fromNetwork .zero (.knownEventIDs [(sampleText 0).getId]))

def asked : Input :=
  .gossip env (.fromNetwork other (.requestEvents [(sampleText 0).getId]))

def sent : Input :=
  .gossip env (.fromNetwork .zero (.events [sampleText 0]))

noncomputable def first : Messages :=
  ((fresh .zero).take meet).take given

theorem added_one :
    (((fresh .zero).take meet).events.addEvent (env 0) (sampleText 0)).2 = true := by
  have ha : (EventsStorage.new.addEvent .same (sampleText 0)).2 = true := by decide +kernel
  exact ha

theorem tells_given : .toNetwork other (.knownEventIDs [(sampleText 0).getId]) ∈
    ((fresh .zero).take meet).tells given := by
  simp only [given, Messages.tells, Messages.processMessage, Messages.addEvent, added_one, if_true]
  refine Messages.mem_sendEvents.mpr <| .inl ⟨other, ?_, by decide +kernel, ?_, rfl⟩
  · rw [Messages.store_nodes]
    exact List.mem_cons_self
  · rw [Messages.store_id]
    exact other_ne

-- It has been written before the restart.
theorem events_restart : (first.take .restart).events = one := by
  have hw : Yaml.toString one = some "one" := by simp [Yaml.toString]
  have hr : Yaml.fromStr "one" = some one := by simp [Yaml.fromStr]
  have hf : first = ({ (fresh .zero).take meet with events := one } : Messages).store := by
    change (((fresh .zero).take meet).addEvent env (sampleText 0)).1 = _
    simp only [Messages.addEvent, added_one, if_true]
    rfl
  have hl : first.storage.lookup gossipName = some "one" := by
    rw [hf, Messages.store, hw]
    exact AList.lookup_insert _
  change (Messages.new first.id first.storage).events = one
  simp [Messages.new, hl, hr]

theorem tells_known : (fresh other).tells known =
    [.toNetwork .zero (.requestEvents [(sampleText 0).getId])] :=
  rfl

theorem tells_asked :
    (first.take .restart).tells asked = [.toNetwork other (.events [sampleText 0])] := by
  have he : one.getEventsByIds [(sampleText 0).getId] = [sampleText 0] := by decide +kernel
  change (first.take .restart).nodeRequestEvents other [(sampleText 0).getId] = _
  rw [Messages.nodeRequestEvents, events_restart, he]
  rfl

theorem events_sent : (((fresh other).take known).take sent).events = one := by
  rw [sent, Messages.take, Messages.events_processMessage]
  rfl

variable {net : Cluster.State NodeID Messages Input GossipOut} {id i : NodeID} {input : Input}
  {o : GossipOut}

-- A node handles a message.
noncomputable def hand (net : Cluster.State NodeID Messages Input GossipOut) (id : NodeID)
    (input : Input) : Cluster.State NodeID Messages Input GossipOut :=
  net.after id ((net.parties id).take input) ((net.parties id).tells input)

-- A node handles an input from outside.
noncomputable def feed (net : Cluster.State NodeID Messages Input GossipOut) (id : NodeID)
    (input : Input) : Cluster.State NodeID Messages Input GossipOut :=
  { hand net id input with inputs := net.inputs ++ [(id, input)] }

theorem step_feed (h : Outside input) : network.Step net (feed net id input) :=
  .outside h ⟨rfl, rfl⟩

theorem step_hand (ho : (i, o) ∈ net.outputs) (hc : Carries i o id input) :
    network.Step net (hand net id input) :=
  .deliver ho hc ⟨rfl, rfl⟩

theorem parties_hand : (hand net id input).parties id = (net.parties id).take input :=
  Cluster.State.parties_after

theorem parties_hand_of_ne (h : i ≠ id) : (hand net id input).parties i = net.parties i :=
  Cluster.State.parties_after_of_ne h

theorem parties_feed : (feed net id input).parties id = (net.parties id).take input :=
  parties_hand

theorem parties_feed_of_ne (h : i ≠ id) : (feed net id input).parties i = net.parties i :=
  parties_hand_of_ne h

theorem outputs_hand (h : o ∈ (net.parties id).tells input) :
    (id, o) ∈ (hand net id input).outputs :=
  Cluster.State.mem_outputs_after h

noncomputable def restarted : Cluster.State NodeID Messages Input GossipOut :=
  feed (feed (feed (Cluster.start fresh) .zero meet) .zero given) .zero .restart

theorem runs_restarted : network.Runs (Cluster.start fresh) restarted := by
  have hm : Outside meet := trivial
  have hg : Outside given := trivial
  have hr : Outside .restart := trivial
  exact .tail (.tail (.single (step_feed hm)) (step_feed hg)) (step_feed hr)

theorem parties_restarted : restarted.parties .zero = first.take .restart := by
  rw [restarted, parties_feed, parties_feed, parties_feed]
  rfl

theorem parties_restarted_other : restarted.parties other = fresh other := by
  rw [restarted, parties_feed_of_ne other_ne, parties_feed_of_ne other_ne,
    parties_feed_of_ne other_ne]
  rfl

theorem outputs_restarted : (.zero, .toNetwork other (.knownEventIDs [(sampleText 0).getId])) ∈
    restarted.outputs := by
  refine List.mem_append_left _ <| outputs_hand ?_
  rw [parties_feed]
  exact tells_given

theorem only_handed_in_one : ∃ net, network.Runs (Cluster.start fresh) net ∧
    (net.parties other).events.Holds (sampleText 0) ∧ HandedIn net (sampleText 0) := by
  let net₁ := hand restarted other known
  let net₂ := hand net₁ .zero asked
  let net := hand net₂ other sent
  have hz : net₁.parties .zero = first.take .restart :=
    (parties_hand_of_ne other_ne.symm).trans parties_restarted
  have ho : net₂.parties other = (fresh other).take known := by
    rw [parties_hand_of_ne other_ne, parties_hand, parties_restarted_other]
  have ha : (other, .toNetwork .zero (.requestEvents [(sampleText 0).getId])) ∈ net₁.outputs :=
    outputs_hand <| by rw [parties_restarted_other, tells_known]; exact List.mem_cons_self
  have hs : (.zero, .toNetwork other (.events [sampleText 0])) ∈ net₂.outputs :=
    outputs_hand <| by rw [hz, tells_asked]; exact List.mem_cons_self
  have hr : network.Runs (Cluster.start fresh) net :=
    runs_restarted.tail (step_hand outputs_restarted (.toNetwork env))
      |>.tail (step_hand ha (.toNetwork env)) |>.tail (step_hand hs (.toNetwork env))
  have hh : (net.parties other).events.Holds (sampleText 0) := by
    rw [parties_hand, ho, events_sent]
    exact holds_one
  have hf : ∀ id, ∃ ds, ds.lookup gossipName = none ∧ fresh id = .new id ds :=
    fun _ => ⟨∅, rfl, rfl⟩
  exact ⟨net, hr, hh, (only_handed_in rereads_one hf hr).1 other |>.2 _ hh⟩

end HandedIn

end GossipEvents
