import Fledger.Crypto.Access

abbrev FloID := U256

abbrev RealmID := U256

inductive Cuckoo
  | duration (t : UInt32)
  | parent (id : FloID)
  | none
deriving DecidableEq

structure FloConfig where
  cuckoo  : Cuckoo := .none
  forceId : Option U256 := .none
deriving DecidableEq

def FloConfig.cuckooParent (config : FloConfig) : Option FloID :=
  match config.cuckoo with
  | .parent id => some id
  | _          => none

structure CondVersion where
  cond       : ConditionLink
  signatures : ConditionSignature

structure Flo where
  realm         : RealmID
  floType       : String
  floConfig     : FloConfig
  data          : Bytes
  dataVersion   : UInt32
  dataSignature : ConditionSignature
  nonce         : U256
  condGenesis   : CondVersion
  condUpdate    : List CondVersion

section Serialize

open MsgPack

instance : Serialize Cuckoo where
  toValue
    | .duration t => variant "Duration" (Serialize.toValue t)
    | .parent id  => variant "Parent" (Serialize.toValue id)
    | .none       => unitVariant "None"

instance : Serialize FloConfig where
  toValue c := .arr [Serialize.toValue c.cuckoo, Serialize.toValue c.forceId]

instance : Serialize CondVersion where
  toValue cv := .arr [Serialize.toValue cv.cond, Serialize.toValue cv.signatures]

instance : Serialize Flo where
  toValue f := variant "FloV1" <| .arr [
    Serialize.toValue f.realm,
    Serialize.toValue f.floType,
    Serialize.toValue f.floConfig,
    .str (hex f.data),
    Serialize.toValue f.dataVersion,
    Serialize.toValue f.dataSignature,
    Serialize.toValue f.nonce,
    Serialize.toValue f.condGenesis,
    Serialize.toValue f.condUpdate
  ]

end Serialize

-- The updated value is represented by its bytes.
structure UpdateDataSign where
  digest    : U256
  update    : Bytes
  signature : ConditionSignature

structure UpdateCondSign where
  cond          : ConditionLink
  digestData    : U256
  digestCond    : U256
  signatureData : ConditionSignature
  signatureCond : ConditionSignature

namespace Flo

def latestCondVersion (f : Flo) : CondVersion :=
  f.condUpdate.getLast?.getD f.condGenesis

def cond (f : Flo) : ConditionLink :=
  f.latestCondVersion.cond

def version (f : Flo) : UInt32 :=
  f.dataVersion

variable [Sha256]

def calcFloId (hash : U256) : FloID :=
  U256.hashDomainParts "ican.re.fledg.flmodules.flo.Flo" [hash.bytes]

def digestCondGenesis (f : Flo) : U256 :=
  U256.hashDomainParts "flmodules::flo::cond_genesis" [
    strBytes f.floType,
    toRmpBytes f.floConfig,
    toRmpBytes f.condGenesis.cond,
    f.nonce.bytes
  ]

def digestCondUpdate (id : FloID) (condVersion : UInt32) (cond : ConditionLink) : U256 :=
  U256.hashDomainParts "flmodules::flo::cond_update" [
    id.bytes,
    Bytes.le 4 condVersion.toNat,
    toRmpBytes cond
  ]

def floId (f : Flo) : FloID :=
  calcFloId <| f.floConfig.forceId.getD f.digestCondGenesis

variable [Target]

def digestData (f : Flo) : U256 :=
  U256.hashDomainParts "flmodules::flo::data" [
    f.floId.bytes,
    f.data,
    Bytes.le 4 f.dataVersion.toNat,
    Bytes.le usizeBytes f.condUpdate.length
  ]

variable [Ed25519]

def signData (f : Flo) (cond : Condition) (signers : List Signer) : Result Flo := do
  let dataSignature ← ConditionSignature.new cond |>.signersDigest signers f.digestData
  return { f with dataSignature }

-- The content and its type are given by their bytes and the name of the type, and the nonce stands
-- for what `U256::rnd` returns.
def newSigner (realm : RealmID) (cond : Condition) (floType : String) (data : Bytes)
    (floConfig : FloConfig) (nonce : U256) (signers : List Signer) : Result Flo := do
  let flo : Flo := {
    realm, floType, floConfig, data, nonce
    dataVersion   := 0
    dataSignature := .empty
    condGenesis   := { cond := ← cond.toLink, signatures := .new cond }
    condUpdate    := []
  }
  let digest := flo.digestCondGenesis
  let signatures ← flo.condGenesis.signatures.signersDigest signers digest
  let flo := { flo with condGenesis.signatures := signatures }
  flo.signData cond signers

def newRealm (cond : Condition) (realm : Bytes) (nonce : U256) (signers : List Signer) :
    Result Flo := do
  let f ← newSigner .zero cond "flmodules::flo::realm::Realm" realm {} nonce signers
  return { f with realm := f.floId }

def startSignData (f : Flo) (cond : Condition) (update : Bytes) : UpdateDataSign :=
  let nextVersion := { f with data := update, dataVersion := f.dataVersion + 1 }
  { digest := nextVersion.digestData, update, signature := .new cond }

def updateData (f : Flo) (update : UpdateDataSign) : Result Flo := do
  if !(← update.signature.verifyDigest update.digest) then
    throw (.error .signatureMessageMismatch)
  let nextVersion := { f with
    data          := update.update
    dataSignature := update.signature
    dataVersion   := f.dataVersion + 1
  }
  if nextVersion.digestData ≠ update.digest then
    throw (.error .signatureMessageMismatch)
  return nextVersion

def updateDataSigners (f : Flo) (cond : Condition) (update : Bytes) (signers : List Signer) :
    Result Flo := do
  let upSig := f.startSignData cond update
  let signature ← upSig.signature.signersDigest signers upSig.digest
  f.updateData { upSig with signature }

def startSignCond (f : Flo) (condOld condNew : Condition) : Result UpdateCondSign := do
  let cv : CondVersion := { cond := ← condNew.toLink, signatures := .new condOld }
  let nextVersion := { f with condUpdate := f.condUpdate ++ [cv] }
  return {
    cond          := ← condNew.toLink
    digestCond    :=
      digestCondUpdate f.floId (.ofNat nextVersion.condUpdate.length) (← condNew.toLink)
    digestData    := nextVersion.digestData
    signatureData := .new condNew
    signatureCond := .new condOld
  }

def updateCond (f : Flo) (update : UpdateCondSign) : Result Flo :=
  let cv : CondVersion := { cond := update.cond, signatures := update.signatureCond }
  return { f with
    condUpdate    := f.condUpdate ++ [cv]
    dataSignature := update.signatureData
  }

def updateCondSigners (f : Flo) (condOld condNew : Condition) (signersOld signersNew : List Signer) :
    Result Flo := do
  let update ← f.startSignCond condOld condNew
  let signatureCond ← update.signatureCond.signersDigest signersOld update.digestCond
  let signatureData ← update.signatureData.signersDigest signersNew update.digestData
  f.updateCond { update with signatureCond, signatureData }

-- The loop of `verify` over the updates of the condition, which returns the last one.
def verifyUpdates (f : Flo) (ver : Nat) (prevCond : ConditionLink) :
    List CondVersion → Result ConditionLink
  | []        => return prevCond
  | cv :: cvs => do
    let digest := digestCondUpdate f.floId (.ofNat (ver + 1)) cv.cond
    if !(← cv.signatures.condition.equalLink prevCond <&&> cv.signatures.verifyDigest digest) then
      throw (.error .signatureMessageMismatch)
    f.verifyUpdates (ver + 1) cv.cond cvs

def verify (f : Flo) : Result Bool := do
  let genesis := f.condGenesis
  if !(← genesis.signatures.verifyDigest f.digestCondGenesis <&&>
      genesis.signatures.condition.equalLink genesis.cond) then
    throw (.error .signatureMessageMismatch)
  let prevCond ← f.verifyUpdates 0 genesis.cond f.condUpdate
  if !(← f.dataSignature.condition.equalLink prevCond <&&>
      f.dataSignature.verifyDigest f.digestData) then
    throw (.error .signatureMessageMismatch)
  return true

section

variable {f f' : Flo}

theorem newSigner_cond {realm : RealmID} {c : Condition} {floType : String} {data : Bytes}
    {floConfig : FloConfig} {nonce : U256} {signers : List Signer}
    (h : newSigner realm c floType data floConfig nonce signers = .ok f) : c.toLink = .ok f.cond := by
  simp only [newSigner, signData, Outcome.bind_eq_ok, Outcome.pure_eq_ok] at h
  obtain ⟨link, hl, _, _, _, _, hf⟩ := h
  rw [hl, ← hf]
  rfl

theorem updateData_eq_ok {u : UpdateDataSign} : f.updateData u = .ok f' ↔
    u.signature.verifyDigest u.digest = .ok true ∧ f'.digestData = u.digest ∧
    f' = { f with
      data          := u.update
      dataSignature := u.signature
      dataVersion   := f.dataVersion + 1
    } := by
  simp only [updateData, Outcome.ensure_eq_ok]
  refine and_congr_right fun _ => ?_
  split
  case isTrue h =>
    simp only [Outcome.bind_eq_ok, Outcome.throw_ne_ok, false_and, exists_false, false_iff, not_and]
    exact fun hd hf => h (hf ▸ hd)
  case isFalse h =>
    simp only [Outcome.pure_eq_ok]
    exact ⟨fun hf => ⟨hf ▸ not_not.mp h, hf.symm⟩, fun hf => hf.right.symm⟩

omit [Sha256] [Target] [Ed25519] in
theorem updateCond_eq_ok {u : UpdateCondSign} : f.updateCond u = .ok f' ↔
    f' = { f with
      condUpdate    := f.condUpdate ++ [{ cond := u.cond, signatures := u.signatureCond }]
      dataSignature := u.signatureData
    } := by
  rw [updateCond, Outcome.pure_eq_ok, eq_comm]

theorem updateData_cond {u : UpdateDataSign} (h : f.updateData u = .ok f') : f'.cond = f.cond := by
  have ⟨_, _, hf⟩ := updateData_eq_ok.mp h
  simp [hf, cond, latestCondVersion]

omit [Sha256] [Target] [Ed25519] in
theorem updateCond_cond {u : UpdateCondSign} (h : f.updateCond u = .ok f') : f'.cond = u.cond := by
  simp [updateCond_eq_ok.mp h, cond, latestCondVersion]

theorem updateDataSigners_cond {c : Condition} {update : Bytes} {signers : List Signer}
    (h : f.updateDataSigners c update signers = .ok f') : f'.cond = f.cond := by
  have ⟨_, _, h⟩ := Outcome.bind_eq_ok.mp h
  exact updateData_cond h

theorem updateCondSigners_cond {old new : Condition} {signersOld signersNew : List Signer}
    (h : f.updateCondSigners old new signersOld signersNew = .ok f') : new.toLink = .ok f'.cond := by
  simp only [updateCondSigners, startSignCond, Outcome.bind_eq_ok, Outcome.pure_eq_ok] at h
  obtain ⟨_, ⟨_, _, link, hl, _, _, hs⟩, _, _, _, _, h⟩ := h
  rw [updateCond_cond h, ← hs]
  exact hl

end

end Flo
