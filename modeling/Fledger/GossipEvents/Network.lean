import Fledger.GossipEvents.Handlers
import Mathlib.Logic.Relation

namespace GossipEvents

open GossipEvents.EventsStorage GossipEvents.Messages

structure Packet where
  src : NodeID
  dst : NodeID
  msg : ModuleMessage

-- Who takes part, and who is connected to whom.
structure Topology where
  members    : Set NodeID
  neighbours : NodeID → List NodeID
  closed     : ∀ a ∈ members, ∀ b ∈ neighbours a, b ∈ members
  symm       : ∀ a ∈ members, ∀ b ∈ neighbours a, a ∈ neighbours b
  connected  : ∀ a ∈ members, ∀ b ∈ members,
    Relation.ReflTransGen (fun a b => b ∈ neighbours a) a b

structure Net where
  nodes    : NodeID → Messages
  inFlight : List Packet
  injected : List Event

namespace Net

section Theory

variable [Sha256] [Yaml EventsStorage]

def sent (n : NodeID) (out : List GossipOut) : List Packet :=
  out.filterMap fun
    | .toNetwork dst msg => some ⟨n, dst, msg⟩
    | .newEvent _        => none

-- Node `n` processes an input, while `rest` stays in flight.
def perform (net : Net) (n : NodeID) (env : Env) (i : GossipIn) (rest : List Packet) : Net :=
  let (m, out) := (net.nodes n).processMessage env i
  { net with nodes := Function.update net.nodes n m, inFlight := rest ++ sent n out }

-- Packets are delivered in any order, and none is lost.
inductive Step (top : Topology) (posts : List Event) : Net → Net → Prop
  | inject {net : Net} (e : Event) (env : Env) (he : e ∈ posts) :
    Step top posts net
      { net.perform e.src env (.addEvent e) net.inFlight with injected := e :: net.injected }
  | tick {net : Net} (n : NodeID) (env : Env) (hn : n ∈ top.members) :
    Step top posts net (net.perform n env .tick net.inFlight)
  | deliver {net : Net} (p : Packet) (l₁ l₂ : List Packet) (env : Env)
    (hp : net.inFlight = l₁ ++ p :: l₂) :
    Step top posts net (net.perform p.dst env (.fromNetwork p.src p.msg) (l₁ ++ l₂))

-- The nodes have learnt who their neighbours are. What they sent then may still be in flight.
structure Start (top : Topology) (net : Net) : Prop where
  nodes    : ∀ n ∈ top.members, ∃ storage env, storage.lookup gossipName = none ∧
    net.nodes n =
      ((Messages.new n storage).processMessage env (.updateNodeList (top.neighbours n))).1
  inFlight : ∀ p ∈ net.inFlight,
    p.src ∈ top.members ∧ p.dst ∈ top.neighbours p.src ∧ p.msg = .requestEventIDs
  injected : net.injected = []

variable {top : Topology} {posts : List Event} {net net' : Net} {n a b : NodeID} {env : Env}
  {i : GossipIn} {rest : List Packet} {e : Event} {id : U256} {p : Packet}

-- A packet names nothing that can not be had.
def Backed (net : Net) (p : Packet) : Prop :=
  match p.msg with
  | .knownEventIDs ids => ∀ id ∈ ids, id ∈ (net.nodes p.src).events.eventIds
  | .events es         => ∀ e ∈ es, (net.nodes p.src).events.Holds e
  | .requestEventIDs   => True
  | .requestEvents ids => ∀ id ∈ ids, id ∈ (net.nodes p.dst).events.eventIds

-- The event `id` is announced to `b` by `a`.
def Offers (net : Net) (a b : NodeID) (id : U256) : Prop :=
  ∃ ids, ⟨a, b, .knownEventIDs ids⟩ ∈ net.inFlight ∧ id ∈ ids

-- The event `id` is on its way to `b`, or `b` has asked for it.
def Brings (net : Net) (b : NodeID) (id : U256) : Prop :=
  (∃ a ids, ⟨b, a, .requestEvents ids⟩ ∈ net.inFlight ∧ id ∈ ids) ∨
  ∃ a es, ⟨a, b, .events es⟩ ∈ net.inFlight ∧ id ∈ es.map Event.getId

structure Invariant (top : Topology) (posts : List Event) (net : Net) : Prop where
  id          : ∀ n ∈ top.members, (net.nodes n).id = n
  nodes       : ∀ n ∈ top.members, (net.nodes n).nodes = top.neighbours n
  within      : ∀ n ∈ top.members, Within posts (net.nodes n).events
  ends        : ∀ p ∈ net.inFlight, p.src ∈ top.members ∧ p.dst ∈ top.members
  backed      : ∀ p ∈ net.inFlight, net.Backed p
  injected    : ∀ e ∈ net.injected, (net.nodes e.src).events.Holds e ∧ e ∈ posts
  -- An event is not announced to its source, which has it anyway.
  sourced     : ∀ n ∈ top.members, ∀ e, (net.nodes n).events.Holds e →
    (net.nodes e.src).events.Holds e
  -- An event is only taken as outstanding while an answer can be expected.
  outstanding : ∀ n ∈ top.members, ∀ id ∈ (net.nodes n).outstanding, net.Brings n id
  -- No neighbour is forgotten.
  spread      : ∀ a ∈ top.members, ∀ b ∈ top.neighbours a, ∀ e, (net.nodes a).events.Holds e →
    (net.nodes b).events.Holds e ∨ net.Offers a b e.getId ∨ net.Brings b e.getId

-- The input of a step: it is an event of the node itself, or a packet that is taken out.
structure Feeds (posts : List Event) (net : Net) (n : NodeID) (i : GossipIn) (rest : List Packet) :
    Prop where
  left    : ∀ q ∈ net.inFlight, q ∈ rest ∨ (q.dst = n ∧ i = .fromNetwork q.src q.msg)
  rest    : ∀ q ∈ rest, q ∈ net.inFlight
  origin  : ∀ a, i.sender = some a → ∃ q ∈ net.inFlight, q.src = a ∧ i = .fromNetwork a q.msg
  carried : ∀ e ∈ i.carried, e ∈ posts
  own     : ∀ e ∈ i.carried, i.sender = none → e.src = n
  noList  : ∀ ids, i ≠ .updateNodeList ids

omit [Sha256] [Yaml EventsStorage] in
theorem mem_sent {out : List GossipOut} {msg : ModuleMessage} :
    ⟨a, b, msg⟩ ∈ sent n out ↔ a = n ∧ .toNetwork b msg ∈ out := by
  rw [sent, List.mem_filterMap]
  constructor
  case mp =>
    intro ⟨o, ho, hp⟩
    cases o <;> cases hp
    exact ⟨rfl, ho⟩
  case mpr =>
    intro ⟨ha, ho⟩
    exact ⟨_, ho, ha ▸ rfl⟩

section Perform

variable {m' : Messages} {out : List GossipOut}

theorem perform_nodes (n' : NodeID) :
    (net.perform n env i rest).nodes n' =
      if n' = n then ((net.nodes n).processMessage env i).1 else net.nodes n' :=
  Function.update_apply ..

theorem perform_inFlight :
    (net.perform n env i rest).inFlight = rest ++ sent n ((net.nodes n).processMessage env i).2 :=
  rfl

theorem handles (env : Env) (h : Invariant top posts net) (hp : Posts posts)
    (hf : Feeds posts net n i rest) (hn : n ∈ top.members) :
    (net.nodes n).Handles posts i ((net.nodes n).processMessage env i).1
      ((net.nodes n).processMessage env i).2 :=
  handles_processMessage (h.within n hn) hp hf.carried hf.noList

theorem mem_perform {msg : ModuleMessage} :
    ⟨a, b, msg⟩ ∈ (net.perform n env i rest).inFlight ↔
      ⟨a, b, msg⟩ ∈ rest ∨
      (a = n ∧ .toNetwork b msg ∈ ((net.nodes n).processMessage env i).2) := by
  rw [perform_inFlight, List.mem_append, mem_sent]

-- What the nodes hold after a step.
theorem holds_perform (h : Invariant top posts net) (hp : Posts posts)
    (hf : Feeds posts net n i rest) (hn : n ∈ top.members) :
    ((net.perform n env i rest).nodes a).events.Holds e ↔
      (net.nodes a).events.Holds e ∨ (a = n ∧ e ∈ i.carried) := by
  rw [perform_nodes]
  split
  case isTrue ha  => rw [handles env h hp hf hn |>.holds, ha]; simp
  case isFalse ha => simp [ha]

theorem within_perform (h : Invariant top posts net) (hp : Posts posts)
    (hf : Feeds posts net n i rest) (hn : n ∈ top.members) (ha : a ∈ top.members) :
    Within posts ((net.perform n env i rest).nodes a).events := by
  rw [perform_nodes]
  split
  case isTrue  => exact handles env h hp hf hn |>.within
  case isFalse => exact h.within a ha

theorem known_perform (h : Invariant top posts net) (hp : Posts posts)
    (hf : Feeds posts net n i rest) (hn : n ∈ top.members) (ha : a ∈ top.members)
    (hi : id ∈ (net.nodes a).events.eventIds) :
    id ∈ ((net.perform n env i rest).nodes a).events.eventIds := by
  have ⟨e, he, hi⟩ := mem_eventIds (h.within a ha).wf |>.mp hi
  refine mem_eventIds (within_perform h hp hf hn ha).wf |>.mpr ⟨e, ?_, hi⟩
  exact holds_perform h hp hf hn |>.mpr <| .inl he

-- A request is answered, and what is sent arrives.
theorem brings_perform (env : Env) (h : Invariant top posts net) (hp : Posts posts)
    (hf : Feeds posts net n i rest) (hn : n ∈ top.members) (hb : net.Brings b id) :
    (net.perform n env i rest).Brings b id ∨ (b = n ∧ id ∈ i.delivered.map Event.getId) := by
  cases hb
  case inl hb =>
    have ⟨a, ids, hq, hi⟩ := hb
    cases hf.left _ hq
    case inl hr => exact .inl <| .inl ⟨a, ids, mem_perform.mpr <| .inl hr, hi⟩
    case inr hr =>
      have ⟨ha, hin⟩ := hr
      have hk : id ∈ (net.nodes a).events.eventIds := h.backed _ hq id hi
      have ⟨es, ho, hes⟩ := handles env h hp hf hn |>.answered b ids hin id hi (ha ▸ hk)
      exact .inl <| .inr ⟨n, es, mem_perform.mpr <| .inr ⟨rfl, ho⟩, hes⟩
  case inr hb =>
    have ⟨a, es, hq, hi⟩ := hb
    cases hf.left _ hq
    case inl hr => exact .inl <| .inr ⟨a, es, mem_perform.mpr <| .inl hr, hi⟩
    case inr hr =>
      have ⟨hb, hin⟩ := hr
      exact .inr ⟨hb, hin ▸ hi⟩

-- An offer is taken up.
theorem offers_perform (env : Env) (hf : Feeds posts net n i rest) (ho : net.Offers a b id) :
    (net.perform n env i rest).Offers a b id ∨
      (b = n ∧ ∃ ids, i = .fromNetwork a (.knownEventIDs ids) ∧ id ∈ ids) := by
  have ⟨ids, hq, hi⟩ := ho
  cases hf.left _ hq
  case inl hr => exact .inl ⟨ids, mem_perform.mpr <| .inl hr, hi⟩
  case inr hr => exact .inr ⟨hr.left, ids, hr.right, hi⟩

omit [Yaml EventsStorage] in
-- Where a node gets an event from, it is stored: at the source of the event, or at the sender.
theorem origin_holds (h : Invariant top posts net) (hf : Feeds posts net n i rest)
    (he : e ∈ i.carried) :
    (i.sender = none ∧ e.src = n) ∨
      ∃ a, i.sender = some a ∧ a ∈ top.members ∧ (net.nodes a).events.Holds e := by
  cases hs : i.sender
  case none   => exact .inl ⟨rfl, hf.own e he hs⟩
  case some a =>
    have ⟨q, hq, ha, hi⟩ := hf.origin a hs
    have hb := h.backed q hq
    refine .inr ⟨a, rfl, ha ▸ (h.ends q hq).left, ?_⟩
    cases hm : q.msg
    case events es =>
      rw [hi, hm] at he
      rw [Backed, hm] at hb
      exact ha ▸ hb e he
    all_goals
      rw [hi, hm] at he
      cases he

theorem sourced_perform (h : Invariant top posts net) (hp : Posts posts)
    (hf : Feeds posts net n i rest) (hn : n ∈ top.members) (ha : a ∈ top.members)
    (he : ((net.perform n env i rest).nodes a).events.Holds e) :
    ((net.perform n env i rest).nodes e.src).events.Holds e := by
  rw [holds_perform h hp hf hn] at he ⊢
  cases he
  case inl he => exact .inl <| h.sourced a ha e he
  case inr he =>
    cases origin_holds h hf he.right
    case inl ho => exact .inr ⟨ho.right, he.right⟩
    case inr ho =>
      have ⟨b, _, hb, ho⟩ := ho
      exact .inl <| h.sourced b hb e ho

theorem ends_perform (h : Invariant top posts net) (hp : Posts posts)
    (hf : Feeds posts net n i rest) (hn : n ∈ top.members)
    (hm : p ∈ (net.perform n env i rest).inFlight) : p.src ∈ top.members ∧ p.dst ∈ top.members := by
  cases mem_perform.mp hm
  case inl hr => exact h.ends p <| hf.rest p hr
  case inr hs =>
    refine ⟨hs.left ▸ hn, ?_⟩
    cases handles env h hp hf hn |>.recipients _ _ hs.right
    case inl hd =>
      rw [h.nodes n hn] at hd
      exact top.closed n hn _ hd
    case inr hd =>
      have ⟨q, hq, ha, _⟩ := hf.origin _ hd
      exact ha ▸ (h.ends q hq).left

theorem backed_perform (h : Invariant top posts net) (hp : Posts posts)
    (hf : Feeds posts net n i rest) (hn : n ∈ top.members)
    (hm : p ∈ (net.perform n env i rest).inFlight) : (net.perform n env i rest).Backed p := by
  have ⟨hsrc, hdst⟩ := ends_perform h hp hf hn hm
  have hh := handles env h hp hf hn
  have known {a : NodeID} {id : U256} (ha : a ∈ top.members)
      (hi : id ∈ (net.nodes a).events.eventIds) :
      id ∈ ((net.perform n env i rest).nodes a).events.eventIds :=
    known_perform h hp hf hn ha hi
  obtain ⟨src, dst, msg⟩ := p
  have hself : (net.perform n env i rest).nodes n = ((net.nodes n).processMessage env i).1 := by
    rw [perform_nodes, if_pos rfl]
  cases mem_perform.mp hm
  case inl hr =>
    have hb := h.backed _ <| hf.rest _ hr
    cases msg
    case knownEventIDs ids => exact fun id hi => known hsrc <| hb id hi
    case events es         => exact fun e he => holds_perform h hp hf hn |>.mpr <| .inl <| hb e he
    case requestEventIDs   => exact trivial
    case requestEvents ids => exact fun id hi => known hdst <| hb id hi
  case inr hs =>
    obtain ⟨rfl, hs⟩ := hs
    cases msg
    case knownEventIDs ids =>
      unfold Backed
      rw [hself]
      exact hh.offers dst ids hs
    case events es =>
      unfold Backed
      rw [hself]
      exact hh.sends dst es hs
    case requestEventIDs   => exact trivial
    case requestEvents ids =>
      intro id hi
      have ⟨offered, hin, hsub⟩ := hh.requests dst ids hs
      have ⟨q, hq, ha, hin'⟩ := hf.origin dst (hin ▸ rfl)
      have hmsg : q.msg = .knownEventIDs offered := by
        rw [hin] at hin'
        injection hin' with _ hmsg
        exact hmsg.symm
      have hb := h.backed q hq
      rw [Backed, hmsg, ha] at hb
      exact known hdst <| hb id <| hsub hi

theorem outstanding_perform (h : Invariant top posts net) (hp : Posts posts)
    (hf : Feeds posts net n i rest) (hn : n ∈ top.members) (ha : a ∈ top.members)
    (hid : id ∈ ((net.perform n env i rest).nodes a).outstanding) :
    (net.perform n env i rest).Brings a id := by
  rw [perform_nodes] at hid
  split at hid
  case isFalse hne =>
    exact brings_perform env h hp hf hn (h.outstanding a ha id hid) |>.resolve_right (hne ·.left)
  case isTrue heq =>
    cases handles env h hp hf hn |>.outstanding id hid
    case inl ho =>
      have hb := h.outstanding n hn id ho.left
      exact heq ▸ (brings_perform env h hp hf hn hb |>.resolve_right (ho.right ·.right))
    case inr ho =>
      have ⟨b, ids, ho, hi⟩ := ho
      exact .inl ⟨b, ids, mem_perform.mpr <| .inr ⟨heq, ho⟩, hi⟩

-- Of the posts, an id names one.
theorem holds_of_known (h : Invariant top posts net) (hp : Posts posts)
    (hf : Feeds posts net n i rest) (hn : n ∈ top.members) (ha : a ∈ top.members)
    (he : e ∈ posts) (hi : e.getId ∈ ((net.perform n env i rest).nodes a).events.eventIds) :
    ((net.perform n env i rest).nodes a).events.Holds e := by
  have hw : Within posts ((net.perform n env i rest).nodes a).events :=
    within_perform h hp hf hn ha
  have ⟨f, hh, hi⟩ := mem_eventIds hw.wf |>.mp hi
  exact hp.inj (hw.posts f hh) he hi ▸ hh

-- An edge along which an event was spread before.
theorem spread_perform_old (h : Invariant top posts net) (hp : Posts posts)
    (hf : Feeds posts net n i rest) (hn : n ∈ top.members) (ha : a ∈ top.members)
    (hb : b ∈ top.neighbours a) (he : (net.nodes a).events.Holds e) :
    ((net.perform n env i rest).nodes b).events.Holds e ∨
      (net.perform n env i rest).Offers a b e.getId ∨
      (net.perform n env i rest).Brings b e.getId := by
  have hbm := top.closed a ha b hb
  have hep := (h.within a ha).posts e he
  obtain hh | ho | hb := h.spread a ha b hb e he
  case inl => exact .inl <| holds_perform h hp hf hn |>.mpr <| .inl hh
  case inr.inl =>
    cases offers_perform env hf ho
    case inl ho => exact .inr <| .inl ho
    case inr ho =>
      obtain ⟨rfl, ids, hin, hi⟩ := ho
      have hself : (net.perform b env i rest).nodes b = ((net.nodes b).processMessage env i).1 := by
        rw [perform_nodes, if_pos rfl]
      cases hself ▸ (handles env h hp hf hn |>.known a ids hin _ hi)
      case inl hk => exact .inl <| holds_of_known h hp hf hn hbm hep hk
      case inr ho => exact .inr <| .inr <| outstanding_perform h hp hf hn hbm ho
  case inr.inr =>
    cases brings_perform env h hp hf hn hb
    case inl hb => exact .inr <| .inr hb
    case inr hd =>
      obtain ⟨rfl, hd⟩ := hd
      have ⟨f, hfd, hi⟩ := List.mem_map.mp hd
      have hfc : f ∈ i.carried := GossipIn.mem_carried_of_delivered hfd
      have hfe : f = e := hp.inj (hf.carried f hfc) hep hi
      exact .inl <| holds_perform h hp hf hn |>.mpr <| .inr ⟨rfl, hfe ▸ hfc⟩

theorem spread_perform (h : Invariant top posts net) (hp : Posts posts)
    (hf : Feeds posts net n i rest) (hn : n ∈ top.members) (ha : a ∈ top.members)
    (hb : b ∈ top.neighbours a) (he : ((net.perform n env i rest).nodes a).events.Holds e) :
    ((net.perform n env i rest).nodes b).events.Holds e ∨
      (net.perform n env i rest).Offers a b e.getId ∨
      (net.perform n env i rest).Brings b e.getId := by
  by_cases hold : (net.nodes a).events.Holds e
  case pos => exact spread_perform_old h hp hf hn ha hb hold
  case neg =>
    obtain ⟨rfl, hc⟩ := (holds_perform h hp hf hn |>.mp he).resolve_left hold
    -- The event is new here: it is announced to `b`, unless `b` is known to have it.
    by_cases hself : b = a
    case pos => exact .inl <| hself ▸ he
    by_cases hsrc : b = e.src
    case pos => exact .inl <| hsrc ▸ sourced_perform h hp hf hn ha he
    by_cases hs : i.sender = some b
    case pos =>
      cases origin_holds h hf hc
      case inl ho => cases hs.symm.trans ho.left
      case inr ho =>
        have ⟨c, hc, _, ho⟩ := ho
        cases Option.some.inj <| hs.symm.trans hc
        exact .inl <| holds_perform h hp hf hn |>.mpr <| .inl ho
    have hid : b ≠ (net.nodes a).id := by rwa [h.id a hn]
    have hnb : b ∈ (net.nodes a).nodes := h.nodes a hn ▸ hb
    have ⟨ids, ho, hi⟩ := handles env h hp hf hn |>.announced e hc hold b hnb hid hsrc hs
    exact .inr <| .inl ⟨ids, mem_perform.mpr <| .inr ⟨rfl, ho⟩, hi⟩

theorem Invariant.perform (h : Invariant top posts net) (hp : Posts posts)
    (hf : Feeds posts net n i rest) (hn : n ∈ top.members) :
    Invariant top posts (net.perform n env i rest) where
  id a ha := by
    rw [perform_nodes]
    split
    case isTrue he  => rw [handles env h hp hf hn |>.id, h.id n hn, he]
    case isFalse he => exact h.id a ha
  nodes a ha := by
    rw [perform_nodes]
    split
    case isTrue he  => rw [handles env h hp hf hn |>.nodes, h.nodes n hn, he]
    case isFalse he => exact h.nodes a ha
  within a ha      := within_perform h hp hf hn ha
  ends p hm        := ends_perform h hp hf hn hm
  backed p hm      := backed_perform h hp hf hn hm
  injected e he    :=
    ⟨holds_perform h hp hf hn |>.mpr <| .inl (h.injected e he).left, (h.injected e he).right⟩
  sourced a ha e   := sourced_perform h hp hf hn ha
  outstanding a ha id := outstanding_perform h hp hf hn ha
  spread a ha b hb e  := spread_perform h hp hf hn ha hb

end Perform

theorem Start.invariant (h : Start top net) : Invariant top posts net := by
  have hnew {n} (hn : n ∈ top.members) :
      (net.nodes n).id = n ∧ (net.nodes n).nodes = top.neighbours n ∧
      (net.nodes n).events = .new ∧ (net.nodes n).outstanding = [] := by
    obtain ⟨ds, env, hs, he⟩ := h.nodes n hn
    simp [he, processMessage, nodeList, Messages.new, hs]
  have hold {n e} (hn : n ∈ top.members) : ¬ (net.nodes n).events.Holds e := by
    rw [(hnew hn).2.2.1]
    have hw : Within [] .new := within_new
    exact fun hh => List.not_mem_nil <| hw.posts e hh
  constructor
  case id       => exact fun n hn => (hnew hn).1
  case nodes    => exact fun n hn => (hnew hn).2.1
  case within   => exact fun n hn => (hnew hn).2.2.1 ▸ within_new
  case sourced  => exact fun n hn e he => (hold hn he).elim
  case spread   => exact fun a ha _ _ e he => (hold ha he).elim
  case injected =>
    intro e he
    rw [h.injected] at he
    cases he
  case ends =>
    intro p hp
    obtain ⟨hs, hd, _⟩ := h.inFlight p hp
    exact ⟨hs, top.closed _ hs _ hd⟩
  case backed =>
    intro p hp
    rw [Backed, (h.inFlight p hp).2.2]
    trivial
  case outstanding =>
    intro n hn id hi
    rw [(hnew hn).2.2.2] at hi
    cases hi

omit [Sha256] [Yaml EventsStorage] in
theorem feeds_tick (posts : List Event) (net : Net) (n : NodeID) :
    Feeds posts net n .tick net.inFlight where
  left _ hq := .inl hq
  rest _ hq := hq
  origin    := nofun
  carried   := nofun
  own       := nofun
  noList    := nofun

omit [Sha256] [Yaml EventsStorage] in
theorem feeds_addEvent (net : Net) (he : e ∈ posts) :
    Feeds posts net e.src (.addEvent e) net.inFlight where
  left _ hq      := .inl hq
  rest _ hq      := hq
  origin         := nofun
  carried _ hf   := List.mem_singleton.mp hf ▸ he
  own _ hf _     := List.mem_singleton.mp hf ▸ rfl
  noList         := nofun

omit [Yaml EventsStorage] in
theorem Invariant.feeds_fromNetwork (h : Invariant top posts net) {l₁ l₂ : List Packet}
    (hl : net.inFlight = l₁ ++ p :: l₂) :
    Feeds posts net p.dst (.fromNetwork p.src p.msg) (l₁ ++ l₂) where
  left q hq := by
    rw [hl, List.mem_append, List.mem_cons] at hq
    rw [List.mem_append]
    obtain hq | hq | hq := hq
    · exact .inl <| .inl hq
    · exact .inr ⟨hq ▸ rfl, hq ▸ rfl⟩
    · exact .inl <| .inr hq
  rest q hq := by
    rw [hl, List.mem_append, List.mem_cons]
    exact (List.mem_append.mp hq).imp_right .inr
  origin a ha := by
    cases ha
    exact ⟨p, hl ▸ List.mem_append_right _ List.mem_cons_self, rfl, rfl⟩
  carried e he := by
    have hm : p ∈ net.inFlight := hl ▸ List.mem_append_right _ List.mem_cons_self
    have hb := h.backed p hm
    have hsrc := (h.ends p hm).left
    obtain ⟨src, dst, msg⟩ := p
    cases msg
    case events es => exact (h.within src hsrc).posts e <| hb e he
    all_goals cases he
  own    := nofun
  noList := nofun

theorem Invariant.step (h : Invariant top posts net) (hp : Posts posts)
    (hs : ∀ e ∈ posts, e.src ∈ top.members) (st : Step top posts net net') :
    Invariant top posts net' := by
  cases st
  case tick n env hn => exact h.perform hp (feeds_tick ..) hn
  case deliver p l₁ l₂ env hl =>
    have hm : p ∈ net.inFlight := hl ▸ List.mem_append_right _ List.mem_cons_self
    exact h.perform hp (h.feeds_fromNetwork hl) (h.ends p hm).right
  case inject e env he =>
    have hf := feeds_addEvent net he
    have hn := hs e he
    have hi : Invariant top posts (net.perform e.src env (.addEvent e) net.inFlight) :=
      h.perform hp hf hn
    refine { hi with injected := ?_ }
    intro f hf'
    cases List.mem_cons.mp hf'
    case inr hf' => exact hi.injected f hf'
    case inl hf' =>
      cases hf'
      have hc : e ∈ (GossipIn.addEvent e).carried := List.mem_singleton_self e
      exact ⟨holds_perform h hp hf hn |>.mpr <| .inr ⟨rfl, hc⟩, he⟩

theorem Invariant.run (h : Invariant top posts net) (hp : Posts posts)
    (hs : ∀ e ∈ posts, e.src ∈ top.members)
    (hr : Relation.ReflTransGen (Step top posts) net net') : Invariant top posts net' := by
  induction hr
  case refl          => exact h
  case tail _ st hi  => exact hi.step hp hs st

omit [Yaml EventsStorage] in
-- Once nothing is in flight, an event has followed all edges.
theorem Invariant.holds_neighbour (h : Invariant top posts net) (hq : net.inFlight = [])
    (ha : a ∈ top.members) (hb : b ∈ top.neighbours a) (he : (net.nodes a).events.Holds e) :
    (net.nodes b).events.Holds e := by
  obtain hh | ⟨_, ho, _⟩ | ⟨_, _, ho, _⟩ | ⟨_, _, ho, _⟩ := h.spread a ha b hb e he
  · exact hh
  all_goals
    rw [hq] at ho
    cases ho

-- When no message is in flight, every node stores every injected event.
theorem disseminated (hp : Posts posts) (hs : ∀ e ∈ posts, e.src ∈ top.members)
    (h : Start top net) (hr : Relation.ReflTransGen (Step top posts) net net')
    (hq : net'.inFlight = []) (he : e ∈ net'.injected) (hn : n ∈ top.members) :
    (net'.nodes n).events.Holds e := by
  have hi : Invariant top posts net' := h.invariant.run hp hs hr
  have ⟨hold, hep⟩ := hi.injected e he
  have hsrc := hs e hep
  have hwalk {n} (hw : Relation.ReflTransGen (fun a b => b ∈ top.neighbours a) e.src n) :
      n ∈ top.members ∧ (net'.nodes n).events.Holds e := by
    induction hw
    case refl             => exact ⟨hsrc, hold⟩
    case tail b c _ hc hb =>
      exact ⟨top.closed b hb.left c hc, hi.holds_neighbour hq hb.left hc hb.right⟩
  exact (hwalk <| top.connected e.src hsrc n hn).right

end Theory

section Concrete

attribute [local instance] Sha256.rolling unsaved

def sampleNode : NodeID :=
  .ofPrefix [1]

def samplePair : Topology where
  members      := {.zero, sampleNode}
  neighbours a := if a = .zero then [sampleNode] else [.zero]
  closed a _ b hb := by
    split at hb
    · exact .inr <| List.mem_singleton.mp hb
    · exact .inl <| List.mem_singleton.mp hb
  symm a ha b hb := by
    obtain rfl | rfl := ha
    · cases List.mem_singleton.mp hb
      decide
    · cases List.mem_singleton.mp hb
      decide
  connected    := by
    have h₁ : Relation.ReflTransGen
        (fun a b => b ∈ if a = .zero then [sampleNode] else [.zero]) .zero sampleNode :=
      .single (by decide)
    have h₂ : Relation.ReflTransGen
        (fun a b => b ∈ if a = .zero then [sampleNode] else [.zero]) sampleNode .zero :=
      .single (by decide)
    intro a ha b hb
    obtain rfl | rfl := ha <;> obtain rfl | rfl := hb
    · exact .refl
    · exact h₁
    · exact h₂
    · exact .refl

def sampleEnv : Env :=
  fun _ => .same

def sampleStart : Net where
  nodes n  :=
    ((Messages.new n ∅).processMessage sampleEnv (.updateNodeList (samplePair.neighbours n))).1
  inFlight := []
  injected := []

def deliverNext (net : Net) : Net :=
  match net.inFlight with
  | []     => net
  | p :: l => net.perform p.dst sampleEnv (.fromNetwork p.src p.msg) l

theorem deliverNext_run {top : Topology} {posts : List Event} (net : Net) :
    Relation.ReflTransGen (Step top posts) net net.deliverNext := by
  unfold deliverNext
  cases hl : net.inFlight
  case nil      => exact .refl
  case cons p l => exact .single <| .deliver p [] l sampleEnv hl

def samplePosted : Net :=
  { sampleStart.perform .zero sampleEnv (.addEvent (sampleText 0)) [] with
    injected := [sampleText 0] }

theorem disseminated_samplePair :
    (samplePosted.deliverNext.deliverNext.deliverNext.nodes sampleNode).events.Holds
      (sampleText 0) := by
  have hp : Posts [sampleText 0] := ⟨by decide, List.nodup_singleton _, by decide⟩
  have hs : ∀ e ∈ [sampleText 0], e.src ∈ samplePair.members := by
    intro e he
    cases List.mem_singleton.mp he
    exact .inl rfl
  have h : Start samplePair sampleStart := ⟨fun n _ => ⟨∅, sampleEnv, rfl, rfl⟩, nofun, rfl⟩
  have hr : Relation.ReflTransGen (Step samplePair [sampleText 0]) sampleStart
      samplePosted.deliverNext.deliverNext.deliverNext :=
    .trans (.single <| .inject (sampleText 0) sampleEnv (List.mem_singleton_self _)) <|
      .trans (deliverNext_run _) <| .trans (deliverNext_run _) (deliverNext_run _)
  have hq : samplePosted.deliverNext.deliverNext.deliverNext.inFlight = [] :=
    List.isEmpty_iff.mp (by decide +kernel)
  exact disseminated hp hs h hr hq (by decide +kernel) (.inr rfl)

end Concrete

end Net

end GossipEvents
