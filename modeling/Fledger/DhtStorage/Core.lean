import Fledger.DhtRouter.Depth
import Fledger.Flo.Realm
import Fledger.Lib.Loop

structure FloMeta where
  id      : FloID
  cuckoos : UInt32
  version : UInt32
deriving DecidableEq

structure DHTConfig where
  realms  : List RealmID := []
  owned   : List FloID := []
  timeout : Nat := 1000

def DHTConfig.acceptsRealm (config : DHTConfig) (id : RealmID) : Bool :=
  config.realms.length == 0 || config.realms.contains id

abbrev FloCuckoo := Flo × List FloID

structure FloStorage where
  flo        : Flo
  cuckoos    : List FloID
  timeCreate : Int
  timeUpdate : Int
  timeRead   : Int
  reads      : Int

structure RealmStorage where
  dhtConfig   : DHTConfig
  realmConfig : RealmConfig
  realmId     : RealmID
  root        : U256
  flos        : HashMap FloID FloStorage
  distances   : HashMap Nat (List FloID)
  size        : Nat

instance : Serialize FloStorage where
  toValue fs := .arr [
    Serialize.toValue fs.flo,
    Serialize.toValue fs.cuckoos,
    .int fs.timeCreate,
    .int fs.timeUpdate,
    .int fs.timeRead,
    .int fs.reads
  ]

namespace Flo

def size (f : Flo) : Nat :=
  ToFromBytes.size f

end Flo

namespace FloStorage

def size (fs : FloStorage) : Nat :=
  ToFromBytes.size fs

-- `FloStorage::from`, which asks for the time.
def ofFlo (now : Int) (flo : Flo) : FloStorage where
  flo        := flo
  cuckoos    := []
  timeCreate := now
  timeUpdate := 0
  timeRead   := 0
  reads      := 0

def version (fs : FloStorage) : UInt32 :=
  fs.flo.version

end FloStorage

namespace RealmStorage

def getFloCuckoo (s : RealmStorage) (id : FloID) : Option FloCuckoo :=
  (s.flos.lookup id).map fun fs => (fs.flo, fs.cuckoos)

def getAllFloCuckoos (s : RealmStorage) : List FloCuckoo :=
  HashMap.values s.flos |>.map fun fs => (fs.flo, fs.cuckoos)

def getCuckooIds (s : RealmStorage) (key : FloID) : Option (List FloID) :=
  (s.flos.lookup key).map FloStorage.cuckoos

def storeCuckooId (s : RealmStorage) (parent cuckoo : FloID) : RealmStorage :=
  match s.flos.lookup parent with
  | some fs =>
    if cuckoo ∉ fs.cuckoos then
      let fs' := { fs with cuckoos := fs.cuckoos ++ [cuckoo] }
      { s with
        flos := s.flos.insert parent fs'
        size := s.size - fs.size + fs'.size
      }
    else s
  | none => s

def storeCuckooIds (s : RealmStorage) (parent : FloID) (cuckoos : List FloID) : RealmStorage :=
  cuckoos.foldl (fun s cuckoo => s.storeCuckooId parent cuckoo) s

variable [Sha256]

def getFloMetas (s : RealmStorage) : List FloMeta :=
  HashMap.values s.flos |>.map fun df => {
    id      := df.flo.floId
    version := df.version
    cuckoos := .ofNat df.cuckoos.length
  }

def syncAvailable (s : RealmStorage) (available : List FloMeta) : Option (List FloID) :=
  let a := available.filterMap fun remote =>
    if (s.flos.lookup remote.id).map (fun local' =>
        decide (local'.flo.version ≥ remote.version) &&
          decide (UInt32.ofNat local'.cuckoos.length ≥ remote.cuckoos)) ≠ some true then
      some remote.id
    else none
  if a.length > 0 then some a else none

-- The ids at a depth, in the order in which they were put there.
def idsAt (s : RealmStorage) (depth : Nat) : List FloID :=
  (s.distances.lookup depth).getD []

def sizeAtDepth (s : RealmStorage) (distance : Nat) : Nat :=
  s.idsAt distance |>.map (fun id => ((s.flos.lookup id).map FloStorage.size).getD 0) |>.sum

def removeEntry (s : RealmStorage) (id : FloID) : RealmStorage :=
  match s.flos.lookup id with
  | some df =>
    let distance := KNode.getDepth s.root id
    { s with
      flos      := s.flos.erase id
      distances := HashMap.modify s.distances distance fun v => v.filter (· ≠ id)
      size      := s.size - df.size
    }
  | none => s

def put (s : RealmStorage) (now : Int) (flo : Flo) : RealmStorage :=
  let id := flo.floId
  let s := s.removeEntry id
  let depth := KNode.getDepth s.root id
  let df := FloStorage.ofFlo now flo
  { s with
    distances := s.distances.insert depth (s.idsAt depth ++ [id])
    size      := s.size + df.size
    flos      := s.flos.insert id df
  }

def new (dhtConfig : DHTConfig) (root : NodeID) (now : Int) (realm : FloRealm) : RealmStorage :=
  let s : RealmStorage := {
    dhtConfig, root
    realmConfig := realm.cache.getConfig
    realmId     := realm.flo.realm
    flos        := ∅
    distances   := ∅
    size        := 0
  }
  s.put now realm.flo

def removeFurthest (s : RealmStorage) : RealmStorage :=
  let depths := HashMap.pairs s.distances |>.filterMap fun (dist, flos) =>
    if (flos.filter (· ≠ s.realmId)).length > 0 then some dist else none
  -- The first of the sorted depths.
  match depths.min? with
  | some furthest =>
    match (s.distances.lookup furthest).bind fun ids =>
        (ids.filter (· ≠ s.realmId)).getLast? with
    | some id => s.removeEntry id
    | none    => s
  | none => s

-- The storage before the eviction loop, and whether the flo is reported as new. The time is taken
-- once for the estimate and once for the entry.
def insertFlo (s : RealmStorage) (estimated stored : Int) (flo : Flo) : RealmStorage × Bool :=
  match s.flos.lookup flo.floId with
  | some old =>
    if old.version < flo.version then (s.put stored flo, true)
    else (s, false)
  | none =>
    let floSize := (FloStorage.ofFlo estimated flo).size
    if s.size + floSize ≤ s.realmConfig.maxSpace then (s.put stored flo, true)
    else
      let sizeAbove := List.range (KNode.getDepth s.root flo.floId) |>.map s.sizeAtDepth |>.sum
      if floSize ≤ sizeAbove then (s.put stored flo, true)
      else (s, true)

def adoptCuckoo (s : RealmStorage) (flo : Flo) : RealmStorage :=
  match flo.floConfig.cuckooParent with
  | some pid => s.storeCuckooId pid flo.floId
  | none     => s

-- The loop might not end, so it is given up when its fuel has run out.
def upsertFlo (fuel : Nat) (s : RealmStorage) (estimated stored : Int) (flo : Flo) :
    Option (RealmStorage × Bool) :=
  if flo.size * 3 > s.realmConfig.maxSpace then some (s, false)
  else
    let (s, isNewFlo) := (s.adoptCuckoo flo).insertFlo estimated stored flo
    (Loop.run (fun s => decide (s.size > s.realmConfig.maxSpace)) removeFurthest fuel s).map
      (·, isNewFlo)

-- The call returns.
def Upserts (s : RealmStorage) (estimated stored : Int) (flo : Flo) (s' : RealmStorage)
    (isNewFlo : Bool) : Prop :=
  ∃ fuel, s.upsertFlo fuel estimated stored flo = some (s', isNewFlo)

end RealmStorage
