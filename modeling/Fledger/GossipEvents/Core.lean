import Fledger.Arch.Nodeids
import Fledger.Lib.HashMap
import Mathlib.Data.List.Sort

namespace GossipEvents

inductive Category
  | textMessage
  | nodeInfo
deriving DecidableEq

-- What `Debug` makes of a category.
def Category.debug : Category → String
  | textMessage => "TextMessage"
  | nodeInfo    => "NodeInfo"

structure CategoryConfig where
  unique    : Bool
  maxEvents : Nat
deriving DecidableEq

structure Event where
  category : Category
  src      : NodeID
  created  : Int
  msg      : String
deriving DecidableEq

structure Events where
  config : CategoryConfig
  events : HashMap U256 Event

structure EventsStorage where
  storage : HashMap Category Events

variable [Sha256]

-- The time of creation is hashed as an `i64`.
def Event.getId (e : Event) : NodeID :=
  Sha256.sha256 <| strBytes e.category.debug ++ e.src.bytes ++
    Bytes.le 8 (e.created % 2 ^ 64).toNat ++ strBytes e.msg

namespace Events

-- The newest events are kept. Among those of the same age, the first ones of the map are.
def limit (s : Events) : Events :=
  if s.events.keys.length ≤ s.config.maxEvents then s
  else
    let ids := HashMap.pairs s.events
      |>.insertionSort (fun a b => b.2.created ≤ a.2.created)
      |>.drop s.config.maxEvents
      |>.map Prod.fst
    { s with events := ids.foldl (fun events id => events.erase id) s.events }

def insertSimple (rehash : HashMap.Rehash U256 Event) (s : Events) (msg : Event) : Events × Bool :=
  (limit { s with events := (rehash <| s.events.insert msg.getId msg).1 }, true)

def insertUnique (rehash : HashMap.Rehash U256 Event) (s : Events) (msg : Event) : Events × Bool :=
  match (HashMap.pairs s.events).find? (·.2.src = msg.src) with
  | some (id, ev) =>
    if ev.created > msg.created then (s, false)
    else insertSimple rehash { s with events := s.events.erase id } msg
  | none => s.insertSimple rehash msg

def insert (rehash : HashMap.Rehash U256 Event) (s : Events) (msg : Event) : Events × Bool :=
  if msg.getId ∈ s.events then (s, false)
  else if s.config.unique then s.insertUnique rehash msg
  else s.insertSimple rehash msg

def getEventsByIds (s : Events) (ids : List U256) : List Event :=
  if s.config.unique then (HashMap.values s.events).filter fun msg => msg.getId ∈ ids
  else ids.filterMap s.events.lookup

end Events

namespace EventsStorage

def new : EventsStorage where
  storage :=
    (∅ : HashMap Category Events)
      |>.insert .textMessage { config := { unique := false, maxEvents := 50 }, events := ∅ }
      |>.insert .nodeInfo { config := { unique := true, maxEvents := 100 }, events := ∅ }

def addEvent (rehash : HashMap.Rehash U256 Event) (s : EventsStorage) (msg : Event) :
    EventsStorage × Bool :=
  match s.storage.lookup msg.category with
  | some msgs =>
    let (msgs, modified) := msgs.insert rehash msg
    ({ s with storage := s.storage.insert msg.category msgs }, modified)
  | none => (s, false)

def getEventsByIds (s : EventsStorage) (ids : List U256) : List Event :=
  HashMap.values s.storage |>.flatMap (·.getEventsByIds ids)

def eventIds (s : EventsStorage) : List U256 :=
  HashMap.values s.storage |>.flatMap fun msgs => (HashMap.values msgs.events).map Event.getId

end EventsStorage

end GossipEvents
