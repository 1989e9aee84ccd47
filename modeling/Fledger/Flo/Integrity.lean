import Fledger.Crypto.Binding
import Fledger.Flo.Genesis
import Fledger.Flo.Verify

namespace Flo

-- The version under which the update at a position is signed.
def updateVersion (i : Nat) : UInt32 :=
  .ofNat (i + 1)

-- The flos differ in one place, and all signatures are where they were. Entries of the updates keep
-- their signatures, also if they are moved.
inductive Alters (f g : Flo) : Prop
  | floType (floType : String) (ne : floType ≠ f.floType) (eq : g = { f with floType })
  | floConfig (floConfig : FloConfig) (ne : floConfig ≠ f.floConfig) (eq : g = { f with floConfig })
  | data (data : Bytes) (ne : data ≠ f.data) (eq : g = { f with data })
  | dataVersion (dataVersion : UInt32) (ne : dataVersion ≠ f.dataVersion)
    (eq : g = { f with dataVersion })
  | nonce (nonce : U256) (ne : nonce ≠ f.nonce) (eq : g = { f with nonce })
  | condGenesis (cond : ConditionLink) (ne : cond ≠ f.condGenesis.cond)
    (eq : g = { f with condGenesis := { f.condGenesis with cond } })
  | condUpdate (i : Nat) (cv : CondVersion) (cond : ConditionLink) (entry : f.condUpdate[i]? = some cv)
    (ne : cond ≠ cv.cond) (eq : g = { f with condUpdate := f.condUpdate.set i { cv with cond } })
  | number (condUpdate : List CondVersion) (ne : condUpdate.length ≠ f.condUpdate.length)
    (eq : g = { f with condUpdate })
  | order (condUpdate : List CondVersion) (perm : condUpdate.Perm f.condUpdate)
    (i : Nat) (cv : CondVersion) (entry : condUpdate[i]? = some cv)
    (ne : ∀ j, f.condUpdate[j]? = some cv → updateVersion j ≠ updateVersion i)
    (eq : g = { f with condUpdate })

-- As long as the versions do not wrap around, every other order of the updates moves one of them to
-- another version.
theorem alters_of_perm {f : Flo} {condUpdate : List CondVersion}
    (hl : f.condUpdate.length ≤ 2 ^ 32) (hp : condUpdate.Perm f.condUpdate)
    (hne : condUpdate ≠ f.condUpdate) : f.Alters { f with condUpdate } := by
  have ⟨i, hi⟩ : ∃ i : Nat, condUpdate[i]? ≠ f.condUpdate[i]? := by
    by_contra hn
    exact hne <| List.ext_getElem? fun i => not_not.mp fun hi => hn ⟨i, hi⟩
  cases he : condUpdate[i]?
  case none =>
    have hlen := hp.length_eq ▸ List.getElem?_eq_none_iff.mp he
    exact absurd (he.trans (List.getElem?_eq_none hlen).symm) hi
  case some cv =>
    refine .order condUpdate hp i cv he (fun j hj hver => hi ?_) rfl
    have hilt := hp.length_eq ▸ (List.getElem?_eq_some_iff.mp he).choose
    have hjlt := (List.getElem?_eq_some_iff.mp hj).choose
    have hij : j = i := by
      have hnat := congrArg UInt32.toNat hver
      simp only [updateVersion, UInt32.toNat_ofNat'] at hnat
      omega
    rw [he, ← hij, hj]

variable [Sha256]

-- What `digest_cond_update` hashes.
def updateParts (f : Flo) (i : Nat) (cond : ConditionLink) : List Bytes :=
  [f.floId.bytes, Bytes.le 4 (updateVersion i).toNat, toRmpBytes cond]

variable [Target]

-- What `digest_data` hashes.
def dataParts (f : Flo) : List Bytes :=
  [f.floId.bytes, f.data, Bytes.le 4 f.dataVersion.toNat, Bytes.le usizeBytes f.condUpdate.length]

-- Everything that is hashed to verify a flo, apart from its id.
def digestInputs (f : Flo) : List Bytes :=
  domainPartsInput "flmodules::flo::cond_genesis" f.genesisParts ::
  domainPartsInput "flmodules::flo::data" f.dataParts ::
  f.condUpdate.mapIdx fun i cv => domainPartsInput "flmodules::flo::cond_update" (f.updateParts i cv.cond)

-- The hash does not collide on what is hashed to verify the two flos.
def NoDigestCollision (f g : Flo) : Prop :=
  ∀ x ∈ f.digestInputs, ∀ y ∈ g.digestInputs, Sha256.sha256 x = Sha256.sha256 y → x = y

-- All lengths are those of values which can be in memory and can be serialized.
structure Fits (f : Flo) : Prop where
  genesis : f.GenesisFits
  data    : f.data.length < 2 ^ 64
  updates : ∀ cv ∈ f.condUpdate, cv.cond.Bounded ∧ (toRmpBytes cv.cond).length < 2 ^ 64
  length  : f.condUpdate.length < 256 ^ usizeBytes

section

variable {f g : Flo} {i j : Nat} {cv cv' : CondVersion} {cond : ConditionLink}

theorem mem_digestInputs_update (h : f.condUpdate[i]? = some cv) :
    domainPartsInput "flmodules::flo::cond_update" (f.updateParts i cv.cond) ∈ f.digestInputs := by
  have ⟨hi, he⟩ := List.getElem?_eq_some_iff.mp h
  refine List.mem_cons_of_mem _ <| List.mem_cons_of_mem _ <| List.mem_mapIdx.mpr ⟨i, hi, ?_⟩
  rw [he]

theorem Fits.dataParts (h : f.Fits) : PartsFit f.dataParts := by
  have hu : usizeBytes < 2 ^ 64 := by
    unfold usizeBytes
    split <;> decide
  constructor
  case left  => simp [Flo.dataParts]
  case right => simpa [Flo.dataParts, U256.length_bytes] using ⟨h.data, hu⟩

theorem Fits.updateParts (h : f.Fits) (hcv : f.condUpdate[i]? = some cv) :
    PartsFit (f.updateParts i cv.cond) := by
  have hc := (h.updates cv (List.mem_of_getElem? hcv)).right
  constructor
  case left  => simp [Flo.updateParts]
  case right => simpa [Flo.updateParts, U256.length_bytes] using hc

-- The digests of the two flos are only equal if the same is hashed for them.
theorem sameGenesis_of_digest (hf : f.Fits) (hg : g.Fits) (hs : f.NoDigestCollision g)
    (h : f.digestCondGenesis = g.digestCondGenesis) : f.SameGenesis g := by
  have hp := hs _ (List.mem_cons_self ..) _ (List.mem_cons_self ..) h
  have ⟨_, hp⟩ := domainPartsInput_inj (by decide) (by decide) hf.genesis.parts hg.genesis.parts hp
  exact sameGenesis_of_parts hf.genesis hg.genesis hp

theorem data_of_digest (hf : f.Fits) (hg : g.Fits) (hs : f.NoDigestCollision g)
    (h : f.digestData = g.digestData) : f.data = g.data ∧ f.dataVersion = g.dataVersion ∧
      f.condUpdate.length = g.condUpdate.length := by
  have hp := hs _ (List.mem_cons_of_mem _ <| List.mem_cons_self ..) _
    (List.mem_cons_of_mem _ <| List.mem_cons_self ..) h
  have ⟨_, hp⟩ := domainPartsInput_inj (by decide) (by decide) hf.dataParts hg.dataParts hp
  simp only [Flo.dataParts, List.cons.injEq, and_true] at hp
  have ⟨_, hd, hv, hl⟩ := hp
  refine ⟨hd, ?_, Bytes.le_inj hf.length hg.length hl⟩
  exact UInt32.toNat_inj.mp <| Bytes.le_inj f.dataVersion.toNat_lt g.dataVersion.toNat_lt hv

theorem update_of_digest (hf : f.Fits) (hg : g.Fits) (hs : f.NoDigestCollision g)
    (hi : f.condUpdate[i]? = some cv) (hj : g.condUpdate[j]? = some cv')
    (h : digestCondUpdate f.floId (updateVersion i) cv.cond =
      digestCondUpdate g.floId (updateVersion j) cv'.cond) :
    updateVersion i = updateVersion j ∧ cv.cond = cv'.cond := by
  have hp := hs _ (mem_digestInputs_update hi) _ (mem_digestInputs_update hj) h
  have ⟨_, hp⟩ := domainPartsInput_inj (by decide) (by decide) (hf.updateParts hi)
    (hg.updateParts hj) hp
  simp only [Flo.updateParts, List.cons.injEq, and_true] at hp
  have ⟨_, hv, hc⟩ := hp
  constructor
  case left =>
    exact UInt32.toNat_inj.mp <|
      Bytes.le_inj (updateVersion i).toNat_lt (updateVersion j).toNat_lt hv
  case right =>
    exact ConditionLink.toValue_inj <| MsgPack.Value.encode_inj
      (ConditionLink.toValue_fits (hf.updates cv (List.mem_of_getElem? hi)).left)
      (ConditionLink.toValue_fits (hg.updates cv' (List.mem_of_getElem? hj)).left) hc

variable [Ed25519]

-- Every condition asks for at least one signature.
def NeedsSignatures (f : Flo) : Prop :=
  f.Steps fun cs _ _ => cs.NeedsSignature

omit [Ed25519] in
theorem Steps.update {P : ConditionSignature → U256 → ConditionLink → Prop} (h : f.Steps P)
    (hcv : f.condUpdate[i]? = some cv) :
    ∃ link, P cv.signatures (digestCondUpdate f.floId (updateVersion i) cv.cond) link := by
  have hi : i < f.conds.length := by
    have := (List.getElem?_eq_some_iff.mp hcv).choose
    rw [conds_length]
    omega
  exact ⟨_, h.updates i _ cv (List.getElem?_eq_getElem hi) hcv⟩

section

variable (hb : Ed25519.Binding ‹_›) (hf : f.Fits) (hg' : g.Fits) (hs : f.NoDigestCollision g)
  (hn : f.NeedsSignatures) (hv : f.Verified) (hv' : g.Verified)

include hb hf hg' hs hn hv hv'

theorem sameGenesis_of_verified (h : f.condGenesis.signatures = g.condGenesis.signatures) :
    f.SameGenesis g := by
  have hg := hv'.genesis.verifyDigest
  rw [← h] at hg
  apply sameGenesis_of_digest hf hg' hs
  exact ConditionSignature.digest_eq hb hn.genesis hv.genesis.verifyDigest hg

theorem data_of_verified (h : f.dataSignature = g.dataSignature) :
    f.data = g.data ∧ f.dataVersion = g.dataVersion ∧
      f.condUpdate.length = g.condUpdate.length := by
  have hd := hv'.data.verifyDigest
  rw [← h] at hd
  apply data_of_digest hf hg' hs
  exact ConditionSignature.digest_eq hb hn.data hv.data.verifyDigest hd

theorem update_of_verified (hi : f.condUpdate[i]? = some cv) (hj : g.condUpdate[j]? = some cv')
    (h : cv.signatures = cv'.signatures) :
    updateVersion i = updateVersion j ∧ cv.cond = cv'.cond := by
  have ⟨_, hn⟩ := Steps.update hn hi
  have ⟨_, ha⟩ := Steps.update hv hi
  have ⟨_, ha'⟩ := Steps.update hv' hj
  have hd := ha'.verifyDigest
  rw [← h] at hd
  apply update_of_digest hf hg' hs hi hj
  exact ConditionSignature.digest_eq hb hn ha.verifyDigest hd

end

-- A flo which verifies does not do so any more after it was altered.
theorem not_verified_of_alters (hb : Ed25519.Binding ‹_›) (hf : f.Fits) (hg : g.Fits)
    (hs : f.NoDigestCollision g) (hn : f.NeedsSignatures) (hv : f.verify = .ok true)
    (ha : f.Alters g) : g.verify ≠ .ok true := by
  intro hv'
  have hv := (verify_eq_ok.mp hv).right
  have hv' := (verify_eq_ok.mp hv').right
  cases ha
  case floType floType ne eq =>
    subst eq
    have hgen := sameGenesis_of_verified hb hf hg hs hn hv hv' rfl
    exact ne hgen.floType.symm
  case floConfig floConfig ne eq =>
    subst eq
    have hgen := sameGenesis_of_verified hb hf hg hs hn hv hv' rfl
    exact ne hgen.floConfig.symm
  case nonce nonce ne eq =>
    subst eq
    have hgen := sameGenesis_of_verified hb hf hg hs hn hv hv' rfl
    exact ne hgen.nonce.symm
  case condGenesis cond ne eq =>
    subst eq
    have hgen := sameGenesis_of_verified hb hf hg hs hn hv hv' rfl
    exact ne hgen.cond.symm
  case data data ne eq =>
    subst eq
    have ⟨hd, _⟩ := data_of_verified hb hf hg hs hn hv hv' rfl
    exact ne hd.symm
  case dataVersion dataVersion ne eq =>
    subst eq
    have ⟨_, hd, _⟩ := data_of_verified hb hf hg hs hn hv hv' rfl
    exact ne hd.symm
  case number condUpdate ne eq =>
    subst eq
    have ⟨_, _, hd⟩ := data_of_verified hb hf hg hs hn hv hv' rfl
    exact ne hd.symm
  case condUpdate i cv cond entry ne eq =>
    subst eq
    have hi := (List.getElem?_eq_some_iff.mp entry).choose
    have hset : (f.condUpdate.set i { cv with cond })[i]? = some { cv with cond } :=
      List.getElem?_set_self hi
    have ⟨_, hc⟩ := update_of_verified hb hf hg hs hn hv hv' entry hset rfl
    exact ne hc.symm
  case order condUpdate perm i cv entry ne eq =>
    subst eq
    have ⟨j, hj⟩ := List.mem_iff_getElem?.mp <| perm.subset <| List.mem_of_getElem? entry
    have ⟨hver, _⟩ := update_of_verified hb hf hg hs hn hv hv' hj entry rfl
    exact ne j hj hver

end

end Flo

namespace Flo

section

attribute [local instance] Sha256.rolling Ed25519.plain Target.native64

def owner : Signer :=
  .ed25519 ⟨.zero⟩

def signedBy (signer : Signer) (digest : U256) : ConditionSignature :=
  let cs := ConditionSignature.new (.verifier signer.verifier)
  match signer.sign digest.bytes with
  | .ok sig  => { cs with signatures := cs.signatures.insert signer.getId sig }
  | .error _ => cs

def unsigned : Flo where
  realm         := .zero
  floType       := "type"
  floConfig     := {}
  data          := [1]
  dataVersion   := 0
  dataSignature := .new (.verifier owner.verifier)
  nonce         := .zero
  condGenesis   := {
    cond       := .verifier owner.getId
    signatures := .new (.verifier owner.verifier)
  }
  condUpdate    := []

def signed : Flo := { unsigned with
  dataSignature          := signedBy owner unsigned.digestData
  condGenesis.signatures := signedBy owner unsigned.digestCondGenesis
}

theorem signed_fits (data : Bytes) (realm : RealmID) (hd : data.length < 2 ^ 64) :
    Fits { signed with data, realm } where
  genesis :=
    have hp : PartsFit signed.genesisParts := by
      unfold PartsFit
      decide +kernel
    ⟨hp, trivial⟩
  data    := hd
  updates := nofun
  length  := by
    have hl : signed.condUpdate.length < 256 ^ usizeBytes := by decide
    exact hl

theorem signed_needsSignatures : signed.NeedsSignatures where
  genesis := rfl
  updates := nofun
  data    := rfl

theorem signed_verify : signed.verify = .ok true := by
  decide +kernel

theorem not_verified_of_alters_signed : ({ signed with data := [2] } : Flo).verify ≠ .ok true := by
  refine not_verified_of_alters Ed25519.plain_binding (signed_fits [1] .zero (by decide))
    (signed_fits [2] .zero (by decide)) ?_ signed_needsSignatures signed_verify
    (.data [2] (by decide +kernel) rfl)
  unfold NoDigestCollision
  decide +kernel

-- The realm of a flo is not signed.
theorem signed_moved : ∃ g : Flo, g = { signed with realm := .ofPrefix [1] } ∧
    g.realm ≠ signed.realm ∧ signed.Fits ∧ g.Fits ∧ signed.NoDigestCollision g ∧
    signed.NeedsSignatures ∧ signed.verify = .ok true ∧ g.verify = .ok true := by
  refine ⟨_, rfl, by decide +kernel, signed_fits [1] .zero (by decide),
    signed_fits [1] (.ofPrefix [1]) (by decide), ?_, signed_needsSignatures, signed_verify, ?_⟩
  · unfold NoDigestCollision
    decide +kernel
  · decide +kernel

end

end Flo
