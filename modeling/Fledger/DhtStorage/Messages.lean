import Fledger.DhtRouter.Broker
import Fledger.DhtStorage.Upsert

inductive DHTStorageIn
  | storeFlo (flo : Flo)
  | readFlo (id : GlobalID)
  | readCuckooIds (id : GlobalID)
  | getFlos
  | getRealms
  | syncFromNeighbors

inductive DHTStorageOut
  | floValue (fc : FloCuckoo)
  | floValues (fcs : List FloCuckoo)
  | realmIds (ids : List RealmID)
  | cuckooIds (id : GlobalID) (cids : List FloID)
  | valueMissing (id : GlobalID)

inductive InternIn
  | routing (msg : DHTRouterOut)
  | storage (msg : DHTStorageIn)
  | propagateFlos

inductive InternOut
  | routing (msg : DHTRouterIn)
  | storage (msg : DHTStorageOut)

inductive MessageClosest
  | storeFlo (flo : Flo)
  | readFlo (rid : RealmID) (requestId : U256)
  | getCuckooIds (rid : RealmID)
  | storeCuckooId (gid : GlobalID)

inductive MessageDest
  | floValue (fc : FloCuckoo) (requestId : Option U256)
  | unknownFlo (key : GlobalID)
  | cookooIds (gid : GlobalID) (cids : List FloID)

inductive MessageNeighbour
  | requestRealmIds
  | availableRealmIds (ids : List RealmID)
  | requestFloMetas (rid : RealmID)
  | availableFlos (rid : RealmID) (metas : List FloMeta)
  | requestFlos (rid : RealmID) (ids : List FloID)
  | flos (fcs : List FloCuckoo)

-- `MODULE_NAME`.
def dhtStorageName : String :=
  "DHTStorage"

def MessageClosest.toInternOut [Yaml MessageClosest] (msg : MessageClosest) (dst : NodeID) :
    Option InternOut :=
  (NetworkWrapper.wrapYaml dhtStorageName msg).map fun w => .routing (.messageClosest dst w)

def MessageDest.toInternOut [Yaml MessageDest] (msg : MessageDest) (dst : NodeID) :
    Option InternOut :=
  (NetworkWrapper.wrapYaml dhtStorageName msg).map fun w => .routing (.messageDirect dst w)

namespace MessageNeighbour

-- Empty lists are not sent.
def isSent : MessageNeighbour → Bool
  | availableRealmIds ids => ids.length > 0
  | availableFlos _ metas => metas.length > 0
  | requestFlos _ ids     => ids.length > 0
  | flos fcs              => fcs.length > 0
  | _                     => true

variable [Yaml MessageNeighbour]

def toNeighbour (msg : MessageNeighbour) (dst : NodeID) : Option InternOut :=
  if msg.isSent then
    (NetworkWrapper.wrapYaml dhtStorageName msg).map fun w => .routing (.messageNeighbour dst w)
  else none

def toBroadcast (msg : MessageNeighbour) : Option InternOut :=
  if msg.isSent then
    (NetworkWrapper.wrapYaml dhtStorageName msg).map fun w => .routing (.messageBroadcast w)
  else none

end MessageNeighbour

inductive FloError
  | wrongContent (expected actual : String)
  | deserialization (name : String)

inductive CoreError
  | realmNotAccepted

-- `rmp_serde::from_slice`, for the realms.
class RealmReader where
  fromRmpBytes : Bytes → Option Realm

-- `TryFrom<Flo>`.
def FloRealm.tryFrom [RealmReader] (flo : Flo) : Except FloError FloRealm :=
  let floType := "flmodules::flo::realm::Realm"
  if flo.floType ≠ floType then throw (.wrongContent floType flo.floType)
  else
    match RealmReader.fromRmpBytes flo.data with
    | some object => return { flo, object }
    | none        => throw (.deserialization floType)

-- What a handler asks for: the time, again and again, a random id, and the global switch. The
-- fuel is there for the loops which might not end.
structure Env where
  fuel          : Nat
  now           : Nat → Int
  rnd           : U256
  evilNoForward : Bool

-- What is left once a flo has been stored.
def Env.next (env : Env) : Env :=
  { env with now := fun i => env.now (i + 2) }

structure Messages where
  realms : HashMap RealmID RealmStorage
  nodes  : List NodeID
  config : DHTConfig
  ourId  : NodeID
  ds     : HashMap String String

-- A handler does not return if its loop does not end, or if it panics.
namespace Messages

-- `get_mut(rid).map(g)`.
def mapRealm (m : Messages) (rid : RealmID) (g : RealmStorage → RealmStorage) : Messages :=
  { m with realms := HashMap.modify m.realms rid g }

def readFlo (m : Messages) (id : GlobalID) : Option FloCuckoo :=
  (m.realms.lookup id.realmId).bind fun realm => realm.getFloCuckoo id.floId

variable [Sha256] [RealmReader]

def createRealm (m : Messages) (now : Int) (realm : FloRealm) : Except CoreError Messages :=
  if !m.config.acceptsRealm realm.flo.realm then throw .realmNotAccepted
  else
    let id := realm.flo.realm
    let dsc := RealmStorage.new m.config m.ourId now realm
    return { m with realms := m.realms.insert id dsc }

variable [Yaml (HashMap RealmID RealmStorage)]

def store (m : Messages) : Messages :=
  match Yaml.toString m.realms with
  | some s => { m with ds := m.ds.insert dhtStorageName s }
  | none   => m

def new (ds : HashMap String String) (config : DHTConfig) (ourNode : NodeID) : Messages :=
  let str := (ds.lookup dhtStorageName).getD ""
  let realms := (Yaml.fromStr str).getD ∅
  store { realms, config, ourId := ourNode, nodes := [], ds }

-- The realm of the flo is known, or it is a new realm.
def takeFlo (m : Messages) (env : Env) (flo : Flo) : Option (Messages × Bool) :=
  match m.realms.lookup flo.realm with
  | some dsc => do
    let (dsc, modification) ← dsc.upsertFlo env.fuel (env.now 0) (env.now 1) flo
    return ({ m with realms := m.realms.insert flo.realm dsc }, modification)
  | none =>
    match FloRealm.tryFrom flo with
    | .error _  => some (m, false)
    | .ok realm =>
      match m.createRealm (env.now 0) realm with
      | .error _ => some (m, false)
      | .ok m    => some (m, true)

def upsertFlo (m : Messages) (env : Env) (flo : Flo) : Option (Messages × Bool) := do
  let (m, modification) ← m.takeFlo env flo
  return (if modification then m.store else m, modification)

variable [Yaml MessageClosest]

-- What is sent to the closest nodes: the flo if it is new, and to its parent that there is a cuckoo.
def announcements (flo : Flo) (modification : Bool) : Option (List InternOut) :=
  let stored :=
    if modification then ((MessageClosest.storeFlo flo).toInternOut flo.floId).map ([·])
    else some []
  let cuckoo :=
    match flo.floConfig.cuckooParent with
    | some parent => ((MessageClosest.storeCuckooId flo.globalId).toInternOut parent).map ([·])
    | none        => some []
  return (← stored) ++ (← cuckoo)

def storeFlo (m : Messages) (env : Env) (flo : Flo) : Option (Messages × List InternOut) := do
  let (m, modification) ← m.upsertFlo env flo
  return (m, ← announcements flo modification)

-- Storing a flo which was received together with its cuckoos.
def storeFloCuckoo (m : Messages) (env : Env) (fc : FloCuckoo) : Option Messages := do
  let (flo, cuckoos) := fc
  let (m, _) ← m.storeFlo env flo
  return m.mapRealm flo.realm (·.storeCuckooIds flo.floId cuckoos)

def storeFloCuckoos (m : Messages) (env : Env) : List FloCuckoo → Option Messages
  | []        => some m
  | fc :: fcs => do
    let m ← m.storeFloCuckoo env fc
    m.storeFloCuckoos env.next fcs

-- What `msg_neighbour` sends back to the neighbour.
def answer (m : Messages) (env : Env) : MessageNeighbour → List MessageNeighbour
  | .requestRealmIds         => [.availableRealmIds m.realms.keys]
  | .availableRealmIds rids  =>
    let acceptedRealms := rids.filter m.config.acceptsRealm
    let unknown := acceptedRealms.filter (· ∉ m.realms)
    unknown.map (fun rid => .requestFlos rid [rid]) ++ acceptedRealms.map .requestFloMetas
  | .requestFloMetas rid     =>
    if !env.evilNoForward then
      match m.realms.lookup rid with
      | some realm => [.availableFlos rid realm.getFloMetas]
      | none       => []
    else []
  | .availableFlos rid metas =>
    match (m.realms.lookup rid).bind (·.syncAvailable metas) with
    | some needed => [.requestFlos rid needed]
    | none        => []
  | .requestFlos rid ids     =>
    if !env.evilNoForward then
      match m.realms.lookup rid with
      | some realm => [.flos (ids.filterMap realm.getFloCuckoo)]
      | none       => []
    else []
  | .flos _                  => []

variable [Yaml MessageNeighbour] [Yaml MessageDest]

def msgNeighbour (m : Messages) (env : Env) (origin : NodeID) :
    MessageNeighbour → Option (Messages × List InternOut)
  | .flos fcs => (m.storeFloCuckoos env fcs).map (·, [])
  | msg       => some (m, (m.answer env msg).filterMap (·.toNeighbour origin))

def msgDest (m : Messages) (env : Env) : MessageDest → Option (Messages × List InternOut)
  | .floValue fc _       => do
    let m ← m.storeFloCuckoo env fc
    return (m, [.storage (.floValue fc)])
  | .unknownFlo key      => some (m, [.storage (.valueMissing key)])
  | .cookooIds gid cids  => some (m, [.storage (.cuckooIds gid cids)])

def msgRouting (m : Messages) (env : Env) (origin : NodeID) (key : U256) :
    MessageClosest → Option (Messages × List InternOut)
  | .storeFlo flo          => m.storeFlo env flo
  | .readFlo rid requestId =>
    match m.readFlo ⟨rid, key⟩ with
    | some fc =>
      if !env.evilNoForward then
        some (m, ((MessageDest.floValue fc (some requestId)).toInternOut origin).toList)
      else some (m, [])
    | none => some (m, [])
  | .getCuckooIds rid      =>
    match (m.realms.lookup rid).bind (·.getCuckooIds key) with
    | some ids => some (m, ((MessageDest.cookooIds ⟨rid, key⟩ ids).toInternOut origin).toList)
    | none     => some (m, [])
  | .storeCuckooId gid     => some (m.mapRealm gid.realmId (·.storeCuckooId key gid.floId), [])

def msgDhtStorage (m : Messages) (env : Env) : DHTStorageIn → Option (Messages × List InternOut)
  | .storeFlo flo      => m.storeFlo env flo
  | .readFlo id        =>
    match m.readFlo id with
    | some fc => some (m, [.storage (.floValue fc)])
    | none    => do
      let out ← (MessageClosest.readFlo id.realmId env.rnd).toInternOut id.floId
      return (m, [out])
  | .readCuckooIds id  => do
    let known :=
      match (m.realms.lookup id.realmId).bind (·.getCuckooIds id.floId) with
      | some cids => [.storage (.cuckooIds id cids)]
      | none      => []
    let out ← (MessageClosest.getCuckooIds id.realmId).toInternOut id.floId
    return (m, known ++ [out])
  | .syncFromNeighbors => do
    let out ← MessageNeighbour.requestRealmIds.toBroadcast
    return (m, [out])
  | .getRealms         => some (m, [.storage (.realmIds m.realms.keys)])
  | .getFlos           =>
    some (m, [.storage (.floValues (HashMap.values m.realms |>.flatMap (·.getAllFloCuckoos)))])

def msgDhtRouter (m : Messages) (env : Env) : DHTRouterOut → Option (Messages × List InternOut)
  | .messageRouting origin _ _ key msg | .messageClosest origin _ key msg =>
    match msg.unwrapYaml MessageClosest dhtStorageName with
    | some mn => m.msgRouting env origin key mn
    | none    => some (m, [])
  | .messageDest _ _ msg =>
    match msg.unwrapYaml MessageDest dhtStorageName with
    | some mn => m.msgDest env mn
    | none    => some (m, [])
  | .nodeList nodes => some ({ m with nodes }, [])
  | .messageNeighbour origin msg =>
    match msg.unwrapYaml MessageNeighbour dhtStorageName with
    | some mn => m.msgNeighbour env origin mn
    | none    => some (m, [])
  | .systemRealm realmId =>
    if realmId ∈ m.config.realms then some (m, [])
    else some ({ m with config.realms := m.config.realms ++ [realmId] }, [])

-- What `messages` does with each of its inputs.
def message (m : Messages) (env : Env) : InternIn → Option (Messages × List InternOut)
  | .routing msg   => m.msgDhtRouter env msg
  | .storage msg   => m.msgDhtStorage env msg
  | .propagateFlos =>
    some (m, (MessageNeighbour.availableRealmIds m.realms.keys).toBroadcast.toList)

end Messages
