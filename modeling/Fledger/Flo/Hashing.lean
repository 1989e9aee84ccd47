import Fledger.Crypto.Prediction
import Fledger.Flo.Blob
import Fledger.Flo.Concrete
import Fledger.Flo.Crypto
import Mathlib.Data.List.Permutation

instance : Serialize RealmConfig where
  toValue c := .arr [.int c.maxSpace, Serialize.toValue c.maxFloSize]

instance : Serialize Realm where
  toValue r := .arr [
    Serialize.toValue r.name,
    Serialize.toValue r.config,
    .map (r.services.pairs.map <| mapEntry Serialize.toValue)
  ]

instance : Unordered Verifier :=
  .plain

instance : Unordered BadgeCond :=
  .plain

namespace Realm

structure Same (r r' : Realm) : Prop where
  name     : r.name = r'.name
  config   : r.config = r'.config
  services : r.services.Same Eq r'.services

theorem settled_iff {r : Realm} : r.services.pairs.length ≤ 1 ↔
    ∀ r', r.Same r' → Serialize.toValue r' = Serialize.toValue r := by
  have hm := HashMap.forall_same_eq_iff (m := r.services)
    (f := mapEntry Serialize.toValue) fun _ _ => mapEntry_inj
  have hv (r : Realm) : Serialize.toValue r = .arr [Serialize.toValue r.name,
      Serialize.toValue r.config, .map (r.services.pairs.map <| mapEntry Serialize.toValue)] := rfl
  simp only [hv, MsgPack.Value.arr.injEq, List.cons.injEq, MsgPack.Value.map.injEq, and_true]
  constructor
  case mp  => exact fun h r' hs => ⟨hs.name ▸ rfl, hs.config ▸ rfl, hm.mpr h _ hs.services⟩
  case mpr =>
    intro h
    exact hm.mp fun m hs => (h { r with services := m } ⟨rfl, rfl, hs⟩).right.right

instance : Unordered Realm where
  Same        := Same
  Settled r   := r.services.pairs.length ≤ 1
  same_refl _ := ⟨rfl, rfl, HashMap.same_refl (fun _ => rfl) _⟩
  settled_iff := settled_iff

end Realm

namespace ConditionSignature

-- Equal signatures, with hash maps of any order.
structure Same (cs cs' : ConditionSignature) : Prop where
  condition  : cs.condition = cs'.condition
  signatures : cs.signatures.Same Eq cs'.signatures

-- There is at most one signature.
def Settled (cs : ConditionSignature) : Prop :=
  cs.signatures.pairs.length ≤ 1

instance (cs : ConditionSignature) : Decidable cs.Settled :=
  inferInstanceAs (Decidable (_ ≤ 1))

theorem same_refl (cs : ConditionSignature) : cs.Same cs where
  condition  := rfl
  signatures := HashMap.same_refl (fun _ => rfl) _

def signatureEntry (e : KeyPairID × Signature) : MsgPack.Value × MsgPack.Value :=
  (Serialize.toValue e.1, .str (base64 e.2))

theorem signatureEntry_inj {e e' : KeyPairID × Signature}
    (h : signatureEntry e = signatureEntry e') : e.1 = e'.1 :=
  U256.toValue_inj (Prod.ext_iff.mp h).left

theorem settled_iff {cs : ConditionSignature} :
    cs.Settled ↔ ∀ cs', cs.Same cs' → Serialize.toValue cs' = Serialize.toValue cs := by
  have hm := HashMap.forall_same_eq_iff (m := cs.signatures) fun _ _ => signatureEntry_inj
  have hv (cs : ConditionSignature) : Serialize.toValue cs =
      .arr [cs.condition.toValue, .map (cs.signatures.pairs.map signatureEntry)] := rfl
  simp only [hv, MsgPack.Value.arr.injEq, List.cons.injEq, MsgPack.Value.map.injEq, and_true]
  constructor
  case mp  => exact fun h cs' hs => ⟨hs.condition ▸ rfl, hm.mpr h _ hs.signatures⟩
  case mpr =>
    intro h
    exact hm.mp fun m hs => (h { cs with signatures := m } ⟨rfl, hs⟩).right

instance : Unordered ConditionSignature where
  Same        := Same
  Settled     := Settled
  same_refl   := same_refl
  settled_iff := settled_iff

end ConditionSignature

namespace CondVersion

structure Same (cv cv' : CondVersion) : Prop where
  cond       : cv.cond = cv'.cond
  signatures : cv.signatures.Same cv'.signatures

theorem settled_iff {cv : CondVersion} : cv.signatures.Settled ↔
    ∀ cv', cv.Same cv' → Serialize.toValue cv' = Serialize.toValue cv := by
  have hv (cv : CondVersion) : Serialize.toValue cv =
      .arr [Serialize.toValue cv.cond, Serialize.toValue cv.signatures] := rfl
  simp only [hv, MsgPack.Value.arr.injEq, List.cons.injEq, and_true]
  rw [ConditionSignature.settled_iff]
  constructor
  case mp  => exact fun h cv' hs => ⟨hs.cond ▸ rfl, h _ hs.signatures⟩
  case mpr => exact fun h cs hs => (h { cv with signatures := cs } ⟨rfl, hs⟩).right

instance : Unordered CondVersion where
  Same         := Same
  Settled cv   := cv.signatures.Settled
  same_refl cv := ⟨rfl, cv.signatures.same_refl⟩
  settled_iff  := settled_iff

end CondVersion

namespace Flo

-- Equal flos, with hash maps of any order.
structure Same (f f' : Flo) : Prop where
  realm         : f.realm = f'.realm
  floType       : f.floType = f'.floType
  floConfig     : f.floConfig = f'.floConfig
  data          : f.data = f'.data
  dataVersion   : f.dataVersion = f'.dataVersion
  dataSignature : f.dataSignature.Same f'.dataSignature
  nonce         : f.nonce = f'.nonce
  condGenesis   : f.condGenesis.Same f'.condGenesis
  condUpdate    : List.Forall₂ CondVersion.Same f.condUpdate f'.condUpdate

-- Nothing is signed by more than one key.
structure Settled (f : Flo) : Prop where
  dataSignature : f.dataSignature.Settled
  condGenesis   : f.condGenesis.signatures.Settled
  condUpdate    : ∀ cv ∈ f.condUpdate, cv.signatures.Settled

theorem same_refl (f : Flo) : f.Same f where
  realm         := rfl
  floType       := rfl
  floConfig     := rfl
  data          := rfl
  dataVersion   := rfl
  dataSignature := f.dataSignature.same_refl
  nonce         := rfl
  condGenesis   := Unordered.same_refl f.condGenesis
  condUpdate    := Unordered.same_refl f.condUpdate

theorem toValue_eq_iff {f f' : Flo} (hs : f.Same f') :
    Serialize.toValue f' = Serialize.toValue f ↔
      Serialize.toValue f'.dataSignature = Serialize.toValue f.dataSignature ∧
        Serialize.toValue f'.condGenesis = Serialize.toValue f.condGenesis ∧
          Serialize.toValue f'.condUpdate = Serialize.toValue f.condUpdate := by
  have hv (f : Flo) : Serialize.toValue f = variant "FloV1" (.arr [
      Serialize.toValue f.realm, Serialize.toValue f.floType, Serialize.toValue f.floConfig,
      .str (hex f.data), Serialize.toValue f.dataVersion, Serialize.toValue f.dataSignature,
      Serialize.toValue f.nonce, Serialize.toValue f.condGenesis,
      Serialize.toValue f.condUpdate]) := rfl
  rw [hv, hv, hs.realm, hs.floType, hs.floConfig, hs.data, hs.dataVersion, hs.nonce]
  simp only [variant, MsgPack.Value.map.injEq, MsgPack.Value.arr.injEq, List.cons.injEq,
    Prod.mk.injEq, true_and, and_true]

theorem settled_iff {f : Flo} :
    f.Settled ↔ ∀ f', f.Same f' → Serialize.toValue f' = Serialize.toValue f := by
  constructor
  case mp  =>
    intro h f' hs
    refine (toValue_eq_iff hs).mpr ⟨?_, ?_, ?_⟩
    · exact ConditionSignature.settled_iff.mp h.dataSignature _ hs.dataSignature
    · exact CondVersion.settled_iff.mp h.condGenesis _ hs.condGenesis
    · exact Unordered.settled_iff (α := List CondVersion) |>.mp h.condUpdate _ hs.condUpdate
  case mpr =>
    intro h
    constructor
    case dataSignature =>
      refine ConditionSignature.settled_iff.mpr fun cs hc => ?_
      have hs : f.Same { f with dataSignature := cs } := { f.same_refl with dataSignature := hc }
      exact ((toValue_eq_iff hs).mp (h _ hs)).left
    case condGenesis   =>
      refine CondVersion.settled_iff.mpr fun cv hc => ?_
      have hs : f.Same { f with condGenesis := cv } := { f.same_refl with condGenesis := hc }
      exact ((toValue_eq_iff hs).mp (h _ hs)).right.left
    case condUpdate    =>
      refine Unordered.settled_iff (α := List CondVersion) |>.mpr fun cvs hc => ?_
      have hs : f.Same { f with condUpdate := cvs } := { f.same_refl with condUpdate := hc }
      exact ((toValue_eq_iff hs).mp (h _ hs)).right.right

instance : Unordered Flo where
  Same        := Same
  Settled     := Settled
  same_refl   := same_refl
  settled_iff := settled_iff

end Flo

namespace FloWrapper

section

variable {α : Type} [Serialize α]

structure Same [Unordered α] (fw fw' : FloWrapper α) : Prop where
  flo    : fw.flo.Same fw'.flo
  object : Unordered.Same fw.object fw'.object

variable [Sha256]

def hash (fw : FloWrapper α) : U256 :=
  U256.hashDomainParts "FloWrapper" [toRmpBytes fw.flo]

def hashUpdate (fw : FloWrapper α) (update : α) : U256 :=
  let newHash := (U256.hashData (toRmpBytes update)).bytes
  U256.hashDomainParts "FloUpdate" [fw.hash.bytes, newHash]

-- Everything that is hashed for the update.
def hashInputs (fw : FloWrapper α) (update : α) : List Bytes :=
  [
    domainPartsInput "FloWrapper" [toRmpBytes fw.flo],
    dataInput (toRmpBytes update),
    domainPartsInput "FloUpdate" [fw.hash.bytes, (U256.hashData (toRmpBytes update)).bytes]
  ]

-- All lengths are those of values which can be in memory and can be serialized, and the hash does
-- not collide on what is hashed for the equal values.
structure Hashes [Unordered α] (fw : FloWrapper α) (update : α) : Prop where
  floFits     : ∀ fw', fw.Same fw' →
    (Serialize.toValue fw'.flo).Fits ∧ (toRmpBytes fw'.flo).length < 2 ^ 64
  updateFits  : ∀ update', Unordered.Same update update' →
    (Serialize.toValue update').Fits ∧ (toRmpBytes update').length < 2 ^ 64
  noCollision : ∀ fw' update', fw.Same fw' → Unordered.Same update update' →
    ∀ x ∈ fw'.hashInputs update', ∀ y ∈ fw.hashInputs update,
      Sha256.sha256 x = Sha256.sha256 y → x = y

variable [Unordered α] {fw fw' : FloWrapper α} {update update' : α}

omit [Sha256] in
theorem same_refl (fw : FloWrapper α) : fw.Same fw where
  flo    := fw.flo.same_refl
  object := Unordered.same_refl fw.object

theorem hash_eq_iff (h : fw.Hashes update) (hs : fw.Same fw') :
    fw'.hash = fw.hash ↔ Serialize.toValue fw'.flo = Serialize.toValue fw.flo := by
  have ⟨hf, hl⟩ := h.floFits _ fw.same_refl
  have ⟨hf', hl'⟩ := h.floFits _ hs
  rw [← Unordered.toRmpBytes_eq_iff hf hf']
  constructor
  case mp  =>
    intro he
    have hi := h.noCollision _ _ hs (Unordered.same_refl update) _ List.mem_cons_self _
      List.mem_cons_self he
    have hp {b : Bytes} (hb : b.length < 2 ^ 64) : PartsFit [b] := ⟨by simp, by simpa using hb⟩
    have ⟨_, hb⟩ := domainPartsInput_inj (by decide) (by decide) (hp hl') (hp hl) hi
    exact List.head_eq_of_cons_eq hb
  case mpr => exact fun he => congrArg (fun b => U256.hashDomainParts "FloWrapper" [b]) he

theorem hashUpdate_eq_iff (h : fw.Hashes update) (hs : fw.Same fw')
    (hu : Unordered.Same update update') :
    fw'.hashUpdate update' = fw.hashUpdate update ↔
      Serialize.toValue fw'.flo = Serialize.toValue fw.flo ∧
        Serialize.toValue update' = Serialize.toValue update := by
  have ⟨hf, hl⟩ := h.updateFits _ (Unordered.same_refl update)
  have ⟨hf', hl'⟩ := h.updateFits _ hu
  rw [← hash_eq_iff h hs, ← Unordered.toRmpBytes_eq_iff hf hf']
  constructor
  case mp  =>
    intro he
    have hp (u v : U256) : PartsFit [u.bytes, v.bytes] := by simp [PartsFit, U256.length_bytes]
    have hi := h.noCollision _ _ hs hu _ (by simp [hashInputs]) _ (by simp [hashInputs]) he
    have ⟨_, hb⟩ := domainPartsInput_inj (by decide) (by decide) (hp _ _) (hp _ _) hi
    simp only [List.cons.injEq, and_true] at hb
    have hd := h.noCollision _ _ hs hu (dataInput (toRmpBytes update')) (by simp [hashInputs])
      (dataInput (toRmpBytes update)) (by simp [hashInputs]) (U256.ext hb.right)
    rw [← List.append_nil (dataInput _), ← List.append_nil (dataInput (toRmpBytes update))] at hd
    exact ⟨U256.ext hb.left, (dataInput_append_inj hl' hl hd).left⟩
  case mpr => exact fun ⟨hf, hd⟩ => by rw [hashUpdate, hashUpdate, hf, hd]

theorem forall_hash_eq_iff (h : fw.Hashes update) :
    (∀ fw', fw.Same fw' → fw'.hash = fw.hash) ↔ fw.flo.Settled := by
  rw [Flo.settled_iff]
  constructor
  case mp  =>
    intro ha f hs
    have hs : fw.Same { fw with flo := f } := { fw.same_refl with flo := hs }
    exact (hash_eq_iff h hs).mp (ha _ hs)
  case mpr => exact fun ha fw' hs => (hash_eq_iff h hs).mpr (ha _ hs.flo)

theorem forall_hashUpdate_eq_iff (h : fw.Hashes update) :
    (∀ fw' update', fw.Same fw' → Unordered.Same update update' →
      fw'.hashUpdate update' = fw.hashUpdate update) ↔
        fw.flo.Settled ∧ Unordered.Settled update := by
  rw [Flo.settled_iff, Unordered.settled_iff]
  constructor
  case mp  =>
    intro ha
    constructor
    case left  =>
      intro f hs
      have hs : fw.Same { fw with flo := f } := { fw.same_refl with flo := hs }
      have hu := Unordered.same_refl update
      exact ((hashUpdate_eq_iff h hs hu).mp (ha _ _ hs hu)).left
    case right =>
      intro u hu
      exact ((hashUpdate_eq_iff h fw.same_refl hu).mp (ha _ _ fw.same_refl hu)).right
  case mpr =>
    intro ⟨hf, hd⟩ fw' u hs hu
    exact (hashUpdate_eq_iff h hs hu).mpr ⟨hf _ hs.flo, hd _ hu⟩

-- Equal values have the same hash exactly if there is nothing in them with two orders.
theorem equal_hash_iff {K V : Type} [Serialize K] [Serialize V] [DecidableEq K] [Unordered V]
    {domain : String} {hm : HashMap K V} (hd : U256.HashesMap domain hm) (h : fw.Hashes update) :
    ((∀ hm', hm.Same Unordered.Same hm' →
        U256.hashDomainHashmap domain hm' = U256.hashDomainHashmap domain hm) ↔
      U256.MapSettled hm) ∧
    ((∀ fw', fw.Same fw' → fw'.hash = fw.hash) ↔ fw.flo.Settled) ∧
    ((∀ fw' update', fw.Same fw' → Unordered.Same update update' →
        fw'.hashUpdate update' = fw.hashUpdate update) ↔
      fw.flo.Settled ∧ Unordered.Settled update) :=
  ⟨U256.forall_hashDomainHashmap_eq_iff hd, forall_hash_eq_iff h, forall_hashUpdate_eq_iff h⟩

-- What is settled is hashed in one form only.
theorem hashes_of_settled (hf : fw.flo.Settled) (hu : Unordered.Settled update)
    (hff : (Serialize.toValue fw.flo).Fits) (hfl : (toRmpBytes fw.flo).length < 2 ^ 64)
    (huf : (Serialize.toValue update).Fits) (hul : (toRmpBytes update).length < 2 ^ 64)
    (hc : ∀ x ∈ fw.hashInputs update, ∀ y ∈ fw.hashInputs update,
      Sha256.sha256 x = Sha256.sha256 y → x = y) : fw.Hashes update := by
  have hfv (f : Flo) (hs : fw.flo.Same f) := Flo.settled_iff.mp hf f hs
  have huv (u : α) (hs : Unordered.Same update u) := Unordered.settled_iff.mp hu u hs
  constructor
  case floFits     =>
    intro fw' hs
    rw [toRmpBytes, hfv _ hs.flo]
    exact ⟨hff, hfl⟩
  case updateFits  =>
    intro u hs
    rw [toRmpBytes, huv _ hs]
    exact ⟨huf, hul⟩
  case noCollision =>
    intro fw' u hs hsu
    have he : fw'.hashInputs u = fw.hashInputs update := by
      simp only [hashInputs, hash, toRmpBytes, hfv _ hs.flo, huv _ hsu]
    rw [he]
    exact hc

end

section Concrete

attribute [local instance] Sha256.rolling Ed25519.plain Target.native64

open ConditionSignature (aliceSigned bothSigned)

def twoServices : HashMap String U256 :=
  (∅ : HashMap String U256).insert "http" .zero |>.insert "tag" .zero

def twoValues : HashMap String String :=
  (∅ : HashMap String String).insert "path" "root" |>.insert "lang" "en"

def reversed {K V : Type} (m : HashMap K V) : HashMap K V :=
  (HashMap.Rehash.reverse m).1

def signedPage (cs : ConditionSignature) (values : HashMap String String) : FloBlobPage where
  flo    := { Flo.sample .zero 0 1 with dataSignature := cs }
  object := { blob := { blobType := "re.fledg.page", links := ∅, values, datas := ∅ } }

def bothReversed : ConditionSignature :=
  { bothSigned with signatures := reversed bothSigned.signatures }

theorem same_reversed {K V : Type} [DecidableEq K] (m : HashMap K V) : m.Same Eq (reversed m) :=
  HashMap.same_of_lookup (fun _ => rfl) <| HashMap.lookup_rehash HashMap.Rehash.reverse

theorem same_bothReversed : bothSigned.Same bothReversed where
  condition  := rfl
  signatures := same_reversed bothSigned.signatures

theorem same_signedPage {cs cs' : ConditionSignature} (h : cs.Same cs')
    (values : HashMap String String) : (signedPage cs values).Same (signedPage cs' values) where
  flo    := { Flo.same_refl (signedPage cs values).flo with dataSignature := h }
  object := Blob.same_refl _

-- The same map, two signatures and two values, each in both orders.
theorem not_equal_hash :
    (twoServices.Same Eq (reversed twoServices) ∧
      U256.hashDomainHashmap "services" (reversed twoServices) ≠
        U256.hashDomainHashmap "services" twoServices) ∧
    ((signedPage bothSigned ∅).Same (signedPage bothReversed ∅) ∧
      (signedPage bothReversed ∅).hash ≠ (signedPage bothSigned ∅).hash) ∧
    (Unordered.Same (signedPage aliceSigned twoValues).cache
        (signedPage aliceSigned (reversed twoValues)).cache ∧
      (signedPage aliceSigned ∅).hashUpdate (signedPage aliceSigned (reversed twoValues)).cache ≠
        (signedPage aliceSigned ∅).hashUpdate (signedPage aliceSigned twoValues).cache) := by
  refine ⟨⟨same_reversed _, by decide +kernel⟩, ⟨?_, by decide +kernel⟩, ?_⟩
  · exact same_signedPage same_bothReversed ∅
  have hs : (signedPage aliceSigned twoValues).cache.blob.Same
      (signedPage aliceSigned (reversed twoValues)).cache.blob :=
    { Blob.same_refl _ with values := same_reversed _ }
  exact ⟨hs, by decide +kernel⟩

theorem hashesMap_twoServices : U256.HashesMap "services" twoServices := by
  have hp : ∀ ps ∈ twoServices.pairs.permutations',
      let parts (ps : List (String × U256)) := ps.flatMap fun e => [toRmpBytes e.1, toRmpBytes e.2]
      (parts ps).length < 2 ^ 64 ∧ (∀ part ∈ parts ps, part.length < 2 ^ 64) ∧
        (U256.hashDomainParts "services" (parts ps) =
            U256.hashDomainParts "services" (parts twoServices.pairs) →
          domainPartsInput "services" (parts ps) =
            domainPartsInput "services" (parts twoServices.pairs)) := by
    decide +kernel
  have hm {m : HashMap String U256} (hs : twoServices.Same Unordered.Same m) :=
    hp m.pairs <| List.mem_permutations'.mpr hs.perm_pairs
  constructor
  case name        => decide
  case parts       => exact fun m hs => ⟨(hm hs).left, (hm hs).right.left⟩
  case values      =>
    intro _ _ e _
    simp [Serialize.toValue, MsgPack.Value.Fits, MsgPack.Token.Fits, hex_length, e.2.length_bytes]
  case noCollision => exact fun m hs => (hm hs).right.right

theorem settled_signedPage : (signedPage aliceSigned ∅).flo.Settled where
  dataSignature := by decide +kernel
  condGenesis   := by decide +kernel
  condUpdate    := nofun

theorem hashes_signedPage :
    (signedPage aliceSigned ∅).Hashes (signedPage aliceSigned ∅).cache :=
  hashes_of_settled settled_signedPage ⟨by decide, by decide, by decide⟩ (by decide +kernel)
    (by decide +kernel) (by decide +kernel) (by decide +kernel) (by decide +kernel)

theorem equal_hash_page :
    (¬ ∀ m, twoServices.Same Eq m →
      U256.hashDomainHashmap "services" m = U256.hashDomainHashmap "services" twoServices) ∧
    (∀ fw, (signedPage aliceSigned ∅).Same fw → fw.hash = (signedPage aliceSigned ∅).hash) := by
  obtain ⟨hm, hf, -⟩ := equal_hash_iff hashesMap_twoServices hashes_signedPage
  refine ⟨fun h => ?_, hf.mpr settled_signedPage⟩
  have he := (hm.mp h).entries ("http", .zero) (by decide) ("tag", .zero) (by decide)
  exact absurd he (by decide +kernel)

end Concrete

end FloWrapper
