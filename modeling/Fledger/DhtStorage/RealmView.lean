import Fledger.DhtStorage.Convert
import Fledger.Flo.Blob
import Fledger.Flo.Concrete
import Fledger.Flo.Editing

namespace RealmView

structure RealmStorage (α : Type) where
  realm   : RealmID
  root    : BlobID
  storage : HashMap BlobID (FloWrapper α)
  cuckoos : HashMap BlobID (List BlobID)

namespace RealmStorage

variable {α : Type}

def insert [Sha256] (s : RealmStorage α) (fw : FloWrapper α) : RealmStorage α :=
  { s with storage := s.storage.insert fw.blobId fw }

def addCuckoo (s : RealmStorage α) (bid blobId : BlobID) : RealmStorage α :=
  let ids := (s.cuckoos.lookup bid).getD []
  if blobId ∈ ids then s else { s with cuckoos := s.cuckoos.insert bid (ids ++ [blobId]) }

-- `flos` is what `get_flo` has found for the cuckoos of the blob and for the blob itself.
def updateCuckoos [Sha256] (s : RealmStorage α) (bid : BlobID) (flos : List (FloWrapper α)) :
    RealmStorage α :=
  flos.foldl (fun s flo =>
    let s := s.insert flo
    if bid = flo.blobId then s else s.addCuckoo bid flo.blobId) s

def fromRoot [Sha256] (realm : RealmID) (root : BlobID) (flos : List (FloWrapper α)) :
    RealmStorage α :=
  { realm, root, storage := ∅, cuckoos := ∅ : RealmStorage α }.updateCuckoos root flos

theorem lookup_insert [Sha256] (s : RealmStorage α) (fw : FloWrapper α) (id : BlobID) :
    (s.insert fw).storage.lookup id = if id = fw.blobId then some fw else s.storage.lookup id :=
  HashMap.lookup_insert_eq id fw.blobId fw

variable [BlobAccess α]

-- The blobs of the ids, each of them followed by those of its cuckoos.
def withCuckoos (s : RealmStorage α) (ids : List BlobID) : List (FloWrapper α) :=
  (ids.flatMap fun id => id :: (s.cuckoos.lookup id).getD []).filterMap s.storage.lookup

def getPathInternal (s : RealmStorage α) (curr : List BlobID) :
    List String → Except String (FloWrapper α)
  | []            => throw "Couldn't find page"
  | part :: parts =>
    match (s.withCuckoos curr).find? (BlobPath.getPath · = some part) with
    | none   => throw "Couldn't find page"
    | some f =>
      if parts = [] then return f
      else
        let children := BlobFamily.getChildren f
        if children = [] then throw "Couldn't find page"
        else s.getPathInternal children parts

-- `trim_start_matches("/")` and `split('/')`.
def pathParts (path : String) : List String :=
  ((path.toList.dropWhile (· = '/')).splitOn '/').map String.ofList

def getPath (s : RealmStorage α) (path : String) : Except String (FloWrapper α) :=
  s.getPathInternal [s.root] (pathParts path)

end RealmStorage

-- How `update_page` ends without a page. A conversion is pending for as long as it is not done with
-- the fuel.
inductive Failure
  | notFound
  | fault (f : Fault)
  | storage
  | pending

-- What the DHT answers to each call, which of the flos can be stored, and the order in which a hash
-- set is iterated.
structure Env where
  dht    : Nat → DHTStorage
  stores : Nat → Bool
  order  : (ids : List BlobID) → { ids' : List BlobID // ids'.Perm ids }
  fuel   : Nat

end RealmView

-- Of the DHT storage, only the number of calls is kept.
structure RealmView where
  pages : RealmView.RealmStorage BlobPage
  tags  : RealmView.RealmStorage BlobTag
  calls : Nat

namespace RealmView

def getBlobPathFamily (v : RealmView) (id : BlobID) : Option Blob :=
  match v.pages.storage.lookup id with
  | some page => some (getBlob page)
  | none      => (v.tags.storage.lookup id).map getBlob

mutual

-- Each call needs some of the fuel.
def getFullPathId (v : RealmView) : Nat → BlobID → Option (Except String String)
  | 0, _         => none
  | fuel + 1, id =>
    match v.pages.storage.lookup id with
    | some page => v.getFullPathBlob fuel (getBlob page)
    | none      =>
      match v.tags.storage.lookup id with
      | some tag => v.getFullPathBlob fuel (getBlob tag)
      | none     => some (throw "Didn't find page or tag with this ID")

def getFullPathBlob (v : RealmView) : Nat → Blob → Option (Except String String)
  | 0, _        => none
  | fuel + 1, b =>
    match BlobPath.getPath b with
    | none      => some (throw "Didn't find path in blob")
    | some path =>
      match (BlobFamily.getParents b).head? with
      | some p => do
        let parent ← v.getFullPathId fuel p
        some (parent.map fun parent => parent ++ "/" ++ path)
      | none   => some (return "/" ++ path)

end

section

variable [Sha256] [FromRmpBytes Verifier] [FromRmpBytes BadgeCond] (env : Env)

def call (v : RealmView) : RealmView :=
  { v with calls := v.calls + 1 }

def convert (v : RealmView) (fw : FloBlobPage) : Except Failure (Condition × RealmView) :=
  match (env.dht v.calls).convert fw.flo.realm env.fuel fw.flo.cond with
  | some cond => return (cond, v.call)
  | none      => throw .pending

omit [FromRmpBytes Verifier] [FromRmpBytes BadgeCond] in
def storePage (v : RealmView) (page : FloBlobPage) : Except Failure RealmView :=
  if env.stores v.calls then return { v.call with pages := v.pages.insert page }
  else throw .storage

variable [Target] [Ed25519]

-- One turn of the loop in `update_child_links`.
def updateChildLink (edit : BlobPage → BlobPage) (signers : List Signer) (v : RealmView)
    (pid : BlobID) : Except Failure RealmView :=
  match v.pages.storage.lookup pid with
  | none        => return v
  | some parent => do
    let (cond, v) ← v.convert env parent
    if ← (cond.canSigners signers).mapError .fault then
      match parent.editDataSigners cond edit signers with
      | .ok newParent     => (v.storePage env newParent).mapError fun _ => .fault .panic
      | .error .panic     => throw (.fault .panic)
      | .error (.error _) => return v
    else return v

def updateChildLinks (v : RealmView) (before after : List BlobID) (edit : BlobPage → BlobPage)
    (signers : List Signer) : Except Failure RealmView :=
  (env.order (before.filter (· ∉ after))).1.foldlM (updateChildLink env edit signers) v

-- Whenever this returns an error, the view is as it was.
def updatePage (v : RealmView) (id : BlobID) (edit : BlobPage → BlobPage) (signers : List Signer) :
    Except Failure (RealmView × FloBlobPage) :=
  match v.pages.storage.lookup id with
  | none      => throw .notFound
  | some page => do
    let parentsBefore := (BlobFamily.getParents page).dedup
    let (cond, v) ← v.convert env page
    let newPage ← (page.editDataSigners cond edit signers).mapError .fault
    let v ← v.storePage env newPage
    let parentsAfter := (BlobFamily.getParents newPage).dedup
    let v ← v.updateChildLinks env parentsBefore parentsAfter (BlobFamily.rmChild id) signers
    let v ← v.updateChildLinks env parentsAfter parentsBefore
      (fun pb => BlobFamily.addChild id (BlobFamily.rmChild id pb)) signers
    return (v, newPage)

end

-- Pages by which the view can be evaluated. Their ids only depend on the nonce.
section Concrete

attribute [local instance] Sha256.rolling Ed25519.plain Target.native64

open ConditionSignature (alice)

def sampleFlo (nonce : UInt8) (data : Bytes) : Flo :=
  { Flo.sample .zero nonce 0 with
    data
    condGenesis := {
      cond       := .verifier alice.getId
      signatures := .new (.verifier alice.verifier)
    }
  }

def pageId (nonce : UInt8) : BlobID :=
  (sampleFlo nonce []).floId

def samplePage (nonce : UInt8) (path : String) (parents children : List BlobID) : FloBlobPage :=
  let links : HashMap String (List BlobID) := ∅
  let object : BlobPage := { blob := {
    blobType := "re.fledg.page"
    links    := links.insert "parents" parents |>.insert "children" children
    values   := (∅ : HashMap String String).insert "path" path
    datas    := ∅
  } }
  { flo := sampleFlo nonce (toRmpBytes object), object }

def storageOf (pages : List FloBlobPage) : RealmStorage BlobPage :=
  pages.foldl RealmStorage.insert
    { realm := .zero, root := pageId 0, storage := ∅, cuckoos := ∅ }

def viewOf (pages : List FloBlobPage) : RealmView where
  pages := storageOf pages
  tags  := { realm := .zero, root := pageId 0, storage := ∅, cuckoos := ∅ }
  calls := 0

theorem blobId_samplePage (nonce : UInt8) (path : String) (parents children : List BlobID) :
    (samplePage nonce path parents children).blobId = pageId nonce :=
  rfl

theorem pageId_ne : ∀ m ∈ [(0 : UInt8), 1, 2, 3], ∀ n ∈ [(0 : UInt8), 1, 2, 3],
    m ≠ n → pageId m ≠ pageId n := by
  decide +kernel

end Concrete

end RealmView
