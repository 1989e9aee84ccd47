import Fledger.Arch.Unordered
import Fledger.Flo.Realm

abbrev BlobID := U256

structure Blob where
  blobType : String
  links    : HashMap String (List BlobID)
  values   : HashMap String String
  datas    : HashMap String Bytes

structure BlobPage where
  blob : Blob

structure BlobTag where
  blob : Blob

abbrev FloBlob := FloWrapper Blob

abbrev FloBlobPage := FloWrapper BlobPage

abbrev FloBlobTag := FloWrapper BlobTag

-- `blobMut` is what `get_blob_mut` is used for.
class BlobAccess (α : Type) where
  getBlob         : α → Blob
  blobMut         : (Blob → Blob) → α → α
  getBlob_blobMut : ∀ f a, getBlob (blobMut f a) = f (getBlob a)

export BlobAccess (getBlob blobMut)

attribute [simp] BlobAccess.getBlob_blobMut

instance : BlobAccess Blob where
  getBlob             := id
  blobMut f           := f
  getBlob_blobMut _ _ := rfl

instance : BlobAccess BlobPage where
  getBlob             := BlobPage.blob
  blobMut f p         := { blob := f p.blob }
  getBlob_blobMut _ _ := rfl

instance : BlobAccess BlobTag where
  getBlob             := BlobTag.blob
  blobMut f t         := { blob := f t.blob }
  getBlob_blobMut _ _ := rfl

instance {α : Type} [BlobAccess α] : BlobAccess (FloWrapper α) where
  getBlob fw            := getBlob fw.cache
  blobMut f fw          := { fw with object := blobMut f fw.object }
  getBlob_blobMut f fw  := BlobAccess.getBlob_blobMut f fw.object

section Serialize

open MsgPack

def mapEntry {V : Type} (f : V → Value) (e : String × V) : Value × Value :=
  (Serialize.toValue e.1, f e.2)

-- The `Bytes` of the data are written as they are, unlike those of a signature.
instance : Serialize Blob where
  toValue b := .arr [
    Serialize.toValue b.blobType,
    .map (b.links.pairs.map <| mapEntry Serialize.toValue),
    .map (b.values.pairs.map <| mapEntry Serialize.toValue),
    .map (b.datas.pairs.map <| mapEntry .bin)
  ]

instance : Serialize BlobPage where
  toValue p := Serialize.toValue p.blob

instance : Serialize BlobTag where
  toValue t := Serialize.toValue t.blob

theorem mapEntry_inj {V : Type} {f : V → Value} {e e' : String × V}
    (h : mapEntry f e = mapEntry f e') : e.1 = e'.1 := by
  simp only [mapEntry, Serialize.toValue, Prod.mk.injEq, Value.str.injEq] at h
  exact strBytes_inj h.left

end Serialize

section

variable {α : Type} [BlobAccess α]

namespace BlobFamily

def setLinks (key : String) (ids : List BlobID) : α → α :=
  blobMut fun b => { b with links := b.links.insert key ids }

def addLink (key : String) (id : BlobID) : α → α :=
  blobMut fun b => { b with links := b.links.insert key <| (b.links.lookup key).getD [] ++ [id] }

def rmLink (key : String) (id : BlobID) : α → α :=
  blobMut fun b => { b with links := b.links.modify key fun ids => ids.filter (· ≠ id) }

def getLinks (key : String) (a : α) : List BlobID :=
  ((getBlob a).links.lookup key).getD []

def setParents (parents : List BlobID) : α → α :=
  setLinks "parents" parents

def addParent (parent : BlobID) : α → α :=
  addLink "parents" parent

def rmParent (parent : BlobID) : α → α :=
  rmLink "parents" parent

def getParents (a : α) : List BlobID :=
  getLinks "parents" a

def setChildren (children : List BlobID) : α → α :=
  setLinks "children" children

def addChild (child : BlobID) : α → α :=
  addLink "children" child

def rmChild (child : BlobID) : α → α :=
  rmLink "children" child

def getChildren (a : α) : List BlobID :=
  getLinks "children" a

variable {key i : String} {id : BlobID} {ids : List BlobID} {a : α}

theorem getLinks_setLinks :
    getLinks i (setLinks key ids a) = if i = key then ids else getLinks i a := by
  simp only [getLinks, setLinks, BlobAccess.getBlob_blobMut, HashMap.lookup_insert_eq]
  split <;> rfl

theorem getLinks_addLink :
    getLinks i (addLink key id a) = if i = key then getLinks i a ++ [id] else getLinks i a := by
  simp only [getLinks, addLink, BlobAccess.getBlob_blobMut, HashMap.lookup_insert_eq]
  split
  case isTrue h => rw [h]; rfl
  case isFalse  => rfl

theorem getLinks_rmLink : getLinks i (rmLink key id a) =
    if i = key then (getLinks i a).filter (· ≠ id) else getLinks i a := by
  simp only [getLinks, rmLink, BlobAccess.getBlob_blobMut, HashMap.lookup_modify]
  split
  case isTrue h =>
    rw [h]
    cases (getBlob a).links.lookup key <;> rfl
  case isFalse  => rfl

theorem getChildren_addChild : getChildren (addChild id a) = getChildren a ++ [id] :=
  getLinks_addLink

theorem getChildren_rmChild : getChildren (rmChild id a) = (getChildren a).filter (· ≠ id) :=
  getLinks_rmLink

@[simp]
theorem getParents_addChild : getParents (addChild id a) = getParents a :=
  getLinks_addLink

@[simp]
theorem getParents_rmChild : getParents (rmChild id a) = getParents a :=
  getLinks_rmLink

@[simp]
theorem getChildren_setParents : getChildren (setParents ids a) = getChildren a :=
  getLinks_setLinks

@[simp]
theorem getChildren_addParent : getChildren (addParent id a) = getChildren a :=
  getLinks_addLink

@[simp]
theorem getChildren_rmParent : getChildren (rmParent id a) = getChildren a :=
  getLinks_rmLink

end BlobFamily

namespace BlobPath

def setPath (path : String) : α → α :=
  blobMut fun b => { b with values := b.values.insert "path" path }

def getPath (a : α) : Option String :=
  (getBlob a).values.lookup "path"

end BlobPath

end

def FloWrapper.blobId [Sha256] {α : Type} (fw : FloWrapper α) : BlobID :=
  fw.flo.floId

namespace Blob

-- Equal contents, with hash maps of any order.
structure Same (b b' : Blob) : Prop where
  blobType : b.blobType = b'.blobType
  links    : b.links.Same Eq b'.links
  values   : b.values.Same Eq b'.values
  datas    : b.datas.Same Eq b'.datas

structure Settled (b : Blob) : Prop where
  links  : b.links.pairs.length ≤ 1
  values : b.values.pairs.length ≤ 1
  datas  : b.datas.pairs.length ≤ 1

theorem same_refl (b : Blob) : b.Same b where
  blobType := rfl
  links    := HashMap.same_refl (fun _ => rfl) _
  values   := HashMap.same_refl (fun _ => rfl) _
  datas    := HashMap.same_refl (fun _ => rfl) _

theorem settled_iff {b : Blob} :
    b.Settled ↔ ∀ b', b.Same b' → Serialize.toValue b' = Serialize.toValue b := by
  have hm {V : Type} {f : V → MsgPack.Value} {m : HashMap String V} :=
    HashMap.forall_same_eq_iff (m := m) (f := mapEntry f) fun _ _ => mapEntry_inj
  simp only [Serialize.toValue, MsgPack.Value.arr.injEq, List.cons.injEq, MsgPack.Value.map.injEq,
    and_true]
  constructor
  case mp  =>
    intro h b' hs
    exact ⟨hs.blobType ▸ rfl, hm.mpr h.links _ hs.links, hm.mpr h.values _ hs.values,
      hm.mpr h.datas _ hs.datas⟩
  case mpr =>
    intro h
    constructor
    case links  =>
      exact hm.mp fun m hs => (h { b with links := m } { b.same_refl with links := hs }).right.left
    case values =>
      exact hm.mp fun m hs =>
        (h { b with values := m } { b.same_refl with values := hs }).right.right.left
    case datas  =>
      exact hm.mp fun m hs =>
        (h { b with datas := m } { b.same_refl with datas := hs }).right.right.right

instance : Unordered Blob where
  Same        := Same
  Settled     := Settled
  same_refl   := same_refl
  settled_iff := settled_iff

end Blob

instance : Unordered BlobPage where
  Same p p'   := p.blob.Same p'.blob
  Settled p   := p.blob.Settled
  same_refl p := p.blob.same_refl
  settled_iff := Blob.settled_iff.trans ⟨fun h p hs => h p.blob hs, fun h b hs => h ⟨b⟩ hs⟩

instance : Unordered BlobTag where
  Same t t'   := t.blob.Same t'.blob
  Settled t   := t.blob.Settled
  same_refl t := t.blob.same_refl
  settled_iff := Blob.settled_iff.trans ⟨fun h t hs => h t.blob hs, fun h b hs => h ⟨b⟩ hs⟩
