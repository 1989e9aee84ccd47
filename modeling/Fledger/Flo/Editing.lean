import Fledger.Crypto.Prediction
import Fledger.Crypto.Signing
import Fledger.Flo.Realm

namespace FloWrapper

variable {α : Type}

def edit (fw : FloWrapper α) (edit : α → α) : α :=
  edit fw.cache

variable [Serialize α] [Sha256] [Target] [Ed25519]

def editDataSigners (fw : FloWrapper α) (cond : Condition) (edit : α → α)
    (signers : List Signer) : Result (FloWrapper α) := do
  let update := fw.edit edit
  let flo ← fw.flo.updateDataSigners cond (toRmpBytes update) signers
  return { flo, object := update }

end FloWrapper

namespace Condition

variable [Sha256] {c : Condition} {cs : List Condition} {vid : KeyPairID}

theorem hasVerifierAny_of_mem (hm : c ∈ cs) (h : c.hasVerifier vid = true) :
    hasVerifierAny vid cs = true := by
  induction cs
  case nil          => cases hm
  case cons d ds hi =>
    rw [hasVerifierAny, Bool.or_eq_true]
    cases hm
    case head    => exact .inl h
    case tail hm => exact .inr (hi hm)

theorem Direct.hasVerifier (h : c.Direct vid) : c.hasVerifier vid = true := by
  induction h
  case verifier h   => simpa [Condition.hasVerifier] using h
  case pass         => rfl
  case badge hi     => exact hi
  case nofT hm _ hi => exact hasVerifierAny_of_mem hm hi

variable [Ed25519] {signer : Signer}

-- The signer is enough for the condition, and no other key has its id.
structure OpenTo (c : Condition) (signer : Signer) : Prop where
  canSigners  : c.canSigners [signer] = .ok true
  noCollision : ∀ v ∈ c.formula.leaves, signer.getId = v.getId → signer.verifier = v

theorem OpenTo.direct (h : c.OpenTo signer) : c.Direct signer.getId := by
  obtain ⟨b, hb, hd⟩ := c.canSign_singleton signer.getId
  cases hb.symm.trans h.canSigners
  exact hd.mp rfl

theorem OpenTo.signedBy (h : c.OpenTo signer) : c.SignedBy [signer] where
  belong      := by simpa using h.direct.hasVerifier
  noCollision := by simpa using h.noCollision
  satisfy     := by
    rw [← h.direct.eval]
    refine Formula.eval_congr fun v hv => decide_eq_decide.mpr ?_
    rw [List.map_singleton, List.mem_singleton]
    constructor
    case mp  => exact fun hs => hs ▸ signer.getId_eq.symm
    case mpr => exact fun hi => (h.noCollision v hv hi.symm).symm

end Condition

namespace FloWrapper

variable {α : Type} [Serialize α] [Sha256] [Target] [Ed25519] {fw fw' : FloWrapper α}
  {c : Condition} {f : α → α} {signers : List Signer} {signer : Signer}

-- What an edit leaves as it is.
structure Edited (f : α → α) (fw fw' : FloWrapper α) : Prop where
  object : fw'.object = f fw.object
  floId  : fw'.flo.floId = fw.flo.floId
  realm  : fw'.flo.realm = fw.flo.realm
  cond   : fw'.flo.cond = fw.flo.cond

theorem edited_of_editDataSigners (h : fw.editDataSigners c f signers = .ok fw') :
    fw.Edited f fw' := by
  obtain ⟨flo, hf, h⟩ := Outcome.bind_eq_ok.mp h
  cases Outcome.pure_eq_ok.mp h
  have hc := Flo.updateDataSigners_cond hf
  obtain ⟨_, _, hf⟩ := Outcome.bind_eq_ok.mp hf
  obtain ⟨_, _, hf⟩ := Flo.updateData_eq_ok.mp hf
  exact ⟨rfl, hf ▸ rfl, hf ▸ rfl, hc⟩

-- One signer who is enough for the condition can edit.
theorem exists_editDataSigners (hc : Ed25519.Correct ‹_›) (h : c.OpenTo signer) :
    ∃ fw', fw.editDataSigners c f [signer] = .ok fw' := by
  let upSig := fw.flo.startSignData c (toRmpBytes (fw.edit f))
  have hs : ∃ cs, (ConditionSignature.new c).signersDigest [signer] upSig.digest = .ok cs :=
    ConditionSignature.signersDigest_ok h.signedBy.belong
  obtain ⟨cs, hs⟩ := hs
  have ⟨hcs, hm⟩ := ConditionSignature.signersDigest_new hs
  have hv := hm.verifyDigest hc (hcs ▸ h.signedBy)
  have hu : ∃ flo, fw.flo.updateData { upSig with signature := cs } = .ok flo := by
    refine ⟨_, Flo.updateData_eq_ok.mpr ⟨hv, ?_, rfl⟩⟩
    rfl
  obtain ⟨flo, hu⟩ := hu
  have hf : fw.flo.updateDataSigners c (toRmpBytes (fw.edit f)) [signer] = .ok flo :=
    Outcome.bind_eq_ok.mpr ⟨cs, hs, hu⟩
  exact ⟨_, Outcome.bind_eq_ok.mpr ⟨flo, hf, rfl⟩⟩

end FloWrapper
