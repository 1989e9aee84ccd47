import Fledger.DhtRouter.Broker
import Fledger.GossipEvents.Core

namespace GossipEvents

inductive ModuleMessage
  | knownEventIDs (ids : List U256)
  | events (events : List Event)
  | requestEventIDs
  | requestEvents (ids : List U256)

inductive GossipIn
  | tick
  | fromNetwork (src : NodeID) (msg : ModuleMessage)
  | addEvent (ev : Event)
  | updateNodeList (ids : List NodeID)

inductive GossipOut
  | toNetwork (dst : NodeID) (msg : ModuleMessage)
  | newEvent (ev : Event)

-- `MODULE_NAME`.
def gossipName : String :=
  "Gossip"

-- How the hash maps are rearranged by the insertions of a handler, one after the other.
abbrev Env :=
  Nat → HashMap.Rehash U256 Event

def Env.next (env : Env) : Env :=
  fun i => env (i + 1)

structure Messages where
  events      : EventsStorage
  storage     : HashMap String String
  id          : NodeID
  nodes       : List NodeID
  outstanding : List U256
  ticks       : Nat

namespace Messages

-- Reading `EventsStorageSave` migrates what an earlier version has written.
variable [Sha256] [Yaml EventsStorage]

def new (id : NodeID) (storage : HashMap String String) : Messages :=
  let gossipMsgsStr := (storage.lookup gossipName).getD ""
  let events :=
    if gossipMsgsStr ≠ "" then (Yaml.fromStr gossipMsgsStr).getD EventsStorage.new
    else EventsStorage.new
  { events, storage, id, nodes := [], outstanding := [], ticks := 0 }

def store (m : Messages) : Messages :=
  match Yaml.toString m.events with
  | some eventsStr => { m with storage := m.storage.insert gossipName eventsStr }
  | none           => m

-- An event is announced to all nodes but the one it comes from, and not to its source.
def sendEvents (m : Messages) (src : NodeID) (events : List Event) : List GossipOut :=
  (m.nodes.filter fun nodeId => nodeId ≠ src ∧ nodeId ≠ m.id).map (fun nodeId =>
    .toNetwork nodeId <| .knownEventIDs <|
      events.filterMap fun e => if nodeId ≠ e.src then some e.getId else none)
    ++ events.map .newEvent

def addEvent (m : Messages) (env : Env) (event : Event) : Messages × List GossipOut :=
  let (events, added) := m.events.addEvent (env 0) event
  let m := { m with events }
  if added then (m.store, m.store.sendEvents m.id [event]) else (m, [])

def addEvents (m : Messages) (env : Env) : List Event → Messages × List Event
  | []      => (m, [])
  | e :: es =>
    let m := { m with outstanding := m.outstanding.filter (· ≠ e.getId) }
    let (events, added) := m.events.addEvent (env 0) e
    let (m, new) := { m with events }.addEvents env.next es
    (m, if added then e :: new else new)

def nodeList (m : Messages) (ids : List NodeID) : Messages × List GossipOut :=
  let reply := (ids.filter fun id => id ∉ m.nodes ∧ id ≠ m.id).map (.toNetwork · .requestEventIDs)
  ({ m with nodes := ids }, reply)

def filterKnownEvents (m : Messages) (eventids : List U256) : List U256 :=
  let ourIds := m.events.eventIds
  eventids.filter fun id => id ∉ ourIds ∧ id ∉ m.outstanding

def nodeKnownEventIds (m : Messages) (src : NodeID) (ids : List U256) : Messages × List GossipOut :=
  let unknownIds := m.filterKnownEvents ids
  if unknownIds ≠ [] then
    ({ m with outstanding := m.outstanding ++ unknownIds },
      [.toNetwork src (.requestEvents unknownIds)])
  else (m, [])

def nodeEvents (m : Messages) (env : Env) (src : NodeID) (events : List Event) :
    Messages × List GossipOut :=
  let (m, eventsOut) := m.addEvents env events
  let output := m.sendEvents src eventsOut
  (if eventsOut ≠ [] then m.store else m, output)

def nodeRequestEvents (m : Messages) (src : NodeID) (ids : List U256) : List GossipOut :=
  let events := m.events.getEventsByIds ids
  if events ≠ [] then [.toNetwork src (.events events)] else []

def nodeRequestEventList (m : Messages) (src : NodeID) : List GossipOut :=
  [.toNetwork src (.knownEventIDs m.events.eventIds)]

def tick (m : Messages) : Messages × List GossipOut :=
  ({ m with outstanding := [] }, m.nodes.map (.toNetwork · .requestEventIDs))

def processNodeMessage (m : Messages) (env : Env) (src : NodeID) :
    ModuleMessage → Messages × List GossipOut
  | .knownEventIDs ids => m.nodeKnownEventIds src ids
  | .events events     => m.nodeEvents env src events
  | .requestEvents ids => (m, m.nodeRequestEvents src ids)
  | .requestEventIDs   => (m, m.nodeRequestEventList src)

def processMessage (m : Messages) (env : Env) : GossipIn → Messages × List GossipOut
  | .tick                =>
    let m := { m with ticks := m.ticks + 1 }
    if m.ticks ≥ 3 then m.tick else (m, [])
  | .fromNetwork src msg => m.processNodeMessage env src msg
  | .addEvent ev         => m.addEvent env ev
  | .updateNodeList ids  => m.nodeList ids

section Theorems

variable {m : Messages} {env : Env} {src : NodeID} {e : Event} {events : List Event} {o : GossipOut}

omit [Sha256] in
@[simp]
theorem store_events : m.store.events = m.events := by
  unfold store
  split <;> rfl

omit [Sha256] in
@[simp]
theorem store_id : m.store.id = m.id := by
  unfold store
  split <;> rfl

omit [Sha256] in
@[simp]
theorem store_nodes : m.store.nodes = m.nodes := by
  unfold store
  split <;> rfl

omit [Sha256] in
@[simp]
theorem store_outstanding : m.store.outstanding = m.outstanding := by
  unfold store
  split <;> rfl

omit [Yaml EventsStorage] in
theorem mem_sendEvents :
    o ∈ m.sendEvents src events ↔
      (∃ n ∈ m.nodes, n ≠ src ∧ n ≠ m.id ∧
        o = .toNetwork n (.knownEventIDs <|
          events.filterMap fun e => if n ≠ e.src then some e.getId else none)) ∨
      ∃ e ∈ events, o = .newEvent e := by
  simp only [sendEvents, List.mem_append, List.mem_map, List.mem_filter, decide_eq_true_iff]
  apply or_congr
  · exact exists_congr fun n => by rw [and_assoc, and_assoc, eq_comm (a := o)]
  · exact exists_congr fun e => by rw [eq_comm]

-- The turn of one event in `add_events`.
def takeEvent (m : Messages) (env : Env) (e : Event) : Messages :=
  { m with
    events      := (m.events.addEvent (env 0) e).1
    outstanding := m.outstanding.filter (· ≠ e.getId) }

omit [Yaml EventsStorage] in
theorem addEvents_cons_fst :
    (m.addEvents env (e :: events)).1 = ((m.takeEvent env e).addEvents env.next events).1 :=
  rfl

omit [Yaml EventsStorage] in
theorem addEvents_cons_snd :
    (m.addEvents env (e :: events)).2 =
      if (m.events.addEvent (env 0) e).2 then
        e :: ((m.takeEvent env e).addEvents env.next events).2
      else ((m.takeEvent env e).addEvents env.next events).2 :=
  rfl

end Theorems

end Messages

end GossipEvents
