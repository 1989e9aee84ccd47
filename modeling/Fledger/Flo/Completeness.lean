import Fledger.Crypto.Concrete
import Fledger.Crypto.Signing
import Fledger.Flo.Verify

-- The arguments of `new_signer`.
structure Creation where
  realm     : RealmID := .zero
  cond      : Condition
  floType   : String := "type"
  data      : Bytes := []
  floConfig : FloConfig := {}
  nonce     : U256 := .zero
  signers   : List Signer

-- The calls of `update_data_signers` and `update_cond_signers`.
inductive Update
  | data (cond : Condition) (update : Bytes) (signers : List Signer)
  | cond (condOld condNew : Condition) (signersOld signersNew : List Signer)

-- The conditions which the update puts in force.
def Update.newConds : Update → List Condition
  | data ..         => []
  | cond _ new _ _ => [new]

namespace Flo

variable [Sha256] [Ed25519] [Target]

def create (c : Creation) : Result Flo :=
  newSigner c.realm c.cond c.floType c.data c.floConfig c.nonce c.signers

def update (f : Flo) : Update → Result Flo
  | .data cond update signers  => f.updateDataSigners cond update signers
  | .cond old new signersOld signersNew => f.updateCondSigners old new signersOld signersNew

def evolve (f : Flo) (us : List Update) : Result Flo :=
  us.foldlM update f

-- The update is made by signers who fulfil the condition in force.
def HonestUpdate (f : Flo) : Update → Prop
  | .data c _ signers  => c.toLink = .ok f.cond ∧ c.SignedBy signers
  | .cond old new signersOld signersNew =>
    old.toLink = .ok f.cond ∧ old.SignedBy signersOld ∧
    (∃ link, new.toLink = .ok link) ∧ new.SignedBy signersNew

def HonestRun (f : Flo) : List Update → Prop
  | []      => True
  | u :: us => f.HonestUpdate u ∧ ∀ f', f.update u = .ok f' → f'.HonestRun us

end Flo

-- The condition can be written as a link which has no badges, and no leaves below a threshold.
def Condition.Plain [Sha256] (c : Condition) : Prop :=
  ∃ link, c.toLink = .ok link ∧ link.plain = true

namespace ConditionSignature

variable [Sha256] [Ed25519]

-- What honest signers provide: the condition in force, and signatures which fulfil it.
structure Honest (cs : ConditionSignature) (digest : U256) (link : ConditionLink) : Prop where
  toLink       : cs.condition.toLink = .ok link
  verifyDigest : cs.verifyDigest digest = .ok true

theorem Honest.accepted_iff {cs : ConditionSignature} {digest : U256} {link : ConditionLink}
    (h : cs.Honest digest link) : cs.Accepted digest link ↔ link.plain = true := by
  rw [← Condition.equalLink_toLink h.toLink]
  exact ⟨Accepted.equalLink, fun he => ⟨he, h.verifyDigest⟩⟩

-- Signers who fulfil a condition can sign for it.
theorem honest_of_signedBy {c : Condition} {signers : List Signer} {link : ConditionLink}
    (hc : Ed25519.Correct ‹_›) (hl : c.toLink = .ok link)
    (hs : c.SignedBy signers) (digest : U256) :
    ∃ cs, (new c).signersDigest signers digest = .ok cs ∧ cs.Honest digest link := by
  have ⟨cs, hcs⟩ := @signersDigest_ok _ _ (new c) digest signers hs.belong
  have ⟨he, hm⟩ := signersDigest_new hcs
  exact ⟨cs, hcs, he ▸ hl, hm.verifyDigest hc (he ▸ hs)⟩

end ConditionSignature

namespace Flo

variable [Sha256] [Ed25519] [Target] {f : Flo} {c : Creation} {u : Update}

theorem verify_iff_plain_of_honest (h : f.Steps ConditionSignature.Honest) :
    f.verify = .ok true ↔ ∀ link ∈ f.conds, link.plain = true := by
  simp only [verify_eq_ok, true_and, Verified]
  exact h.iff_conds fun _ _ _ hh => hh.accepted_iff

-- An honest flo, whose links are those of the given conditions.
structure HonestFor (f : Flo) (conditions : List Condition) : Prop where
  steps : f.Steps ConditionSignature.Honest
  links : List.Forall₂ (fun c link => c.toLink = .ok link) conditions f.conds

section

variable (hc : Ed25519.Correct ‹_›)

include hc

theorem create_honest {link : ConditionLink} (hl : c.cond.toLink = .ok link)
    (hs : c.cond.SignedBy c.signers) : ∃ f, create c = .ok f ∧ f.HonestFor [c.cond] := by
  let f₀ : Flo := {
    realm         := c.realm
    floType       := c.floType
    floConfig     := c.floConfig
    data          := c.data
    dataVersion   := 0
    dataSignature := .empty
    nonce         := c.nonce
    condGenesis   := { cond := link, signatures := .new c.cond }
    condUpdate    := []
  }
  have ⟨gs, hgs, hg⟩ := ConditionSignature.honest_of_signedBy hc hl hs f₀.digestCondGenesis
  have ⟨ds, hds, hd⟩ := ConditionSignature.honest_of_signedBy hc hl hs f₀.digestData
  refine ⟨{ f₀ with condGenesis.signatures := gs, dataSignature := ds }, ?_, ⟨hg, ?_, hd⟩, ?_⟩
  case refine_1 =>
    simp only [create, newSigner, hl, Outcome.ok_bind]
    change (ConditionSignature.signersDigest _ _ f₀.digestCondGenesis >>= _) = _
    rw [hgs, Outcome.ok_bind, signData]
    change (ConditionSignature.signersDigest _ _ f₀.digestData >>= _) = _
    rw [hds]
    rfl
  case refine_2 => simp [f₀]
  case refine_3 => simpa [conds, f₀] using hl

theorem updateDataSigners_honest {cond : Condition} {signers : List Signer}
    {conditions : List Condition} (update : Bytes) (h : f.HonestFor conditions)
    (hl : cond.toLink = .ok f.cond) (hs : cond.SignedBy signers) :
    ∃ f', f.updateDataSigners cond update signers = .ok f' ∧ f'.HonestFor conditions := by
  let f₁ : Flo := { f with data := update, dataVersion := f.dataVersion + 1 }
  have ⟨ds, hds, hd⟩ := ConditionSignature.honest_of_signedBy hc hl hs f₁.digestData
  refine ⟨{ f₁ with dataSignature := ds }, ?_, ⟨h.steps.genesis, h.steps.updates, hd⟩, h.links⟩
  simp only [updateDataSigners, startSignData]
  change (ConditionSignature.signersDigest _ _ f₁.digestData >>= _) = _
  rw [hds, Outcome.ok_bind, updateData]
  change (ds.verifyDigest f₁.digestData >>= _) = _
  rw [hd.verifyDigest, Outcome.ok_bind]
  simp only [Bool.not_true, Bool.false_eq_true, if_false]
  exact if_neg fun hne => hne rfl

theorem updateCondSigners_honest {condOld condNew : Condition}
    {signersOld signersNew : List Signer} {conditions : List Condition} {link : ConditionLink}
    (h : f.HonestFor conditions) (hlo : condOld.toLink = .ok f.cond)
    (hso : condOld.SignedBy signersOld) (hln : condNew.toLink = .ok link)
    (hsn : condNew.SignedBy signersNew) :
    ∃ f', f.updateCondSigners condOld condNew signersOld signersNew = .ok f' ∧
      f'.HonestFor (conditions ++ [condNew]) := by
  let f₁ (cs : ConditionSignature) : Flo :=
    { f with condUpdate := f.condUpdate ++ [{ cond := link, signatures := cs }] }
  have hf₁ (cs cs' : ConditionSignature) : (f₁ cs).digestData = (f₁ cs').digestData := by
    simp [f₁, digestData, floId, digestCondGenesis]
  have ⟨cs, hcs, hcu⟩ := ConditionSignature.honest_of_signedBy hc hlo hso
    (digestCondUpdate f.floId (.ofNat (f.condUpdate.length + 1)) link)
  have ⟨ds, hds, hd⟩ := ConditionSignature.honest_of_signedBy hc hln hsn (f₁ cs).digestData
  refine ⟨{ f₁ cs with dataSignature := ds }, ?_, ⟨h.steps.genesis, ?_, ?_⟩, ?_⟩
  case refine_1 =>
    simp only [updateCondSigners, startSignCond, hln, Outcome.ok_bind, pure_bind, List.length_append,
      List.length_singleton]
    rw [hcs, Outcome.ok_bind]
    change (ConditionSignature.signersDigest _ _ (f₁ _).digestData >>= _) = _
    rw [hf₁ _ cs, hds]
    rfl
  case refine_2 =>
    intro i link' cv hi hcv
    rw [show Flo.conds _ = f.conds ++ [link] by simp [conds, f₁]] at hi
    change (f.condUpdate ++ [_])[i]? = some cv at hcv
    cases Nat.lt_or_ge i f.condUpdate.length
    case inl hlt =>
      rw [List.getElem?_append_left hlt] at hcv
      rw [List.getElem?_append_left (by rw [conds_length]; omega)] at hi
      exact h.steps.updates i link' cv hi hcv
    case inr hge =>
      have hlt := List.getElem?_eq_some_iff.mp hcv |>.choose
      simp only [List.length_append, List.length_singleton] at hlt
      have hlen : i = f.condUpdate.length := by omega
      have hlast := f.cond_eq_getLast
      rw [List.getLast?_eq_getElem?, conds_length, Nat.add_sub_cancel, ← hlen] at hlast
      rw [List.getElem?_append_left (by rw [conds_length]; omega), hlast] at hi
      rw [hlen, List.getElem?_concat_length] at hcv
      cases hi
      cases hcv
      exact hlen ▸ hcu
  case refine_3 =>
    rw [show Flo.cond _ = link by simp [cond, latestCondVersion, f₁]]
    exact hd
  case refine_4 =>
    rw [show Flo.conds _ = f.conds ++ [link] by simp [conds, f₁]]
    exact List.rel_append h.links (by simpa using hln)

theorem update_honest {conditions : List Condition} (h : f.HonestFor conditions)
    (hu : f.HonestUpdate u) :
    ∃ f', f.update u = .ok f' ∧ f'.HonestFor (conditions ++ u.newConds) := by
  cases u
  case data cond update signers =>
    have ⟨f', hf, h'⟩ := updateDataSigners_honest hc update h hu.left hu.right
    exact ⟨f', hf, by simpa [Update.newConds] using h'⟩
  case cond =>
    have ⟨hlo, hso, ⟨_, hln⟩, hsn⟩ := hu
    exact updateCondSigners_honest hc h hlo hso hln hsn

theorem evolve_honest {conditions : List Condition} {us : List Update}
    (h : f.HonestFor conditions) (hr : f.HonestRun us) :
    ∃ f', f.evolve us = .ok f' ∧ f'.HonestFor (conditions ++ us.flatMap Update.newConds) := by
  induction us generalizing f conditions
  case nil => exact ⟨f, rfl, by simpa using h⟩
  case cons u us hi =>
    have ⟨f₁, h₁, hf₁⟩ := update_honest hc h hr.left
    have ⟨f', h', hf'⟩ := hi hf₁ (hr.right f₁ h₁)
    exact ⟨f', Outcome.bind_eq_ok.mpr ⟨f₁, h₁, h'⟩, by simpa using hf'⟩

end

omit [Ed25519] [Target] in
theorem forall_plain_iff {conditions : List Condition} {links : List ConditionLink}
    (h : List.Forall₂ (fun c link => c.toLink = .ok link) conditions links) :
    (∀ link ∈ links, link.plain = true) ↔ ∀ c ∈ conditions, c.Plain := by
  induction h
  case nil => simp
  case cons c link _ _ hl _ hi => simp [hi, Condition.Plain, hl]

-- In a run of honest updates nothing fails, and `verify` accepts the flo at the end exactly if all
-- conditions which were put in force on the way are plain.
theorem verifies_iff_plain (hc : Ed25519.Correct ‹_›) {us : List Update} {link : ConditionLink}
    (hl : c.cond.toLink = .ok link) (hs : c.cond.SignedBy c.signers)
    (hus : ∀ f, create c = .ok f → f.HonestRun us) :
    ∃ f, create c >>= (evolve · us) = .ok f ∧
      (f.verify = .ok true ↔ ∀ cond ∈ c.cond :: us.flatMap Update.newConds, cond.Plain) := by
  have ⟨f, hf, h⟩ := create_honest hc hl hs
  have ⟨f', hf', h'⟩ := evolve_honest hc h (hus f hf)
  refine ⟨f', Outcome.bind_eq_ok.mpr ⟨f, hf, hf'⟩, ?_⟩
  rw [verify_iff_plain_of_honest h'.steps, forall_plain_iff h'.links]
  rfl

end Flo

namespace Flo

attribute [local instance] Sha256.rolling Ed25519.plain Target.native64

def soleSigner (n : UInt8) : Signer :=
  .ed25519 ⟨.ofPrefix [n]⟩

def soleCondition (n : UInt8) : Condition :=
  .verifier (soleSigner n).verifier

theorem soleCondition_signedBy (n : UInt8) : (soleCondition n).SignedBy [soleSigner n] where
  belong      := by simp [soleCondition, Condition.hasVerifier, Signer.getId_eq]
  satisfy     := by simp [soleCondition, Condition.formula]
  noCollision := by simp [soleCondition, Condition.formula, Formula.leaves]

theorem soleCondition_toLink (n : UInt8) :
    (soleCondition n).toLink = .ok (.verifier (soleSigner n).verifier.getId) :=
  rfl

-- The content is updated, and then the key is rotated.
theorem verifies_iff_plain_rotation :
    ∃ f, create { cond := soleCondition 1, signers := [soleSigner 1] } >>= (evolve · [
        .data (soleCondition 1) [7] [soleSigner 1],
        .cond (soleCondition 1) (soleCondition 2) [soleSigner 1] [soleSigner 2]
      ]) = .ok f ∧
      (f.verify = .ok true ↔ ∀ cond ∈ [soleCondition 1, soleCondition 2], cond.Plain) := by
  refine verifies_iff_plain Ed25519.plain_correct (soleCondition_toLink 1)
    (soleCondition_signedBy 1) fun f hf => ?_
  have hcond := newSigner_cond hf
  refine ⟨⟨?_, soleCondition_signedBy 1⟩, fun f' hf' => ⟨⟨?_, soleCondition_signedBy 1,
    ⟨_, soleCondition_toLink 2⟩, soleCondition_signedBy 2⟩, fun _ _ => trivial⟩⟩
  case refine_1 => exact hcond
  case refine_2 => rw [updateDataSigners_cond hf', ← hcond]

-- One of one keys has to sign, and it does.
theorem threshold_not_verified :
    (Condition.nofT 1 [soleCondition 1]).SignedBy [soleSigner 1] ∧
    (create { cond := .nofT 1 [soleCondition 1], signers := [soleSigner 1] } >>= verify) =
      .error (.error .signatureMessageMismatch) := by
  refine ⟨⟨?_, ?_, ?_⟩, ?_⟩
  all_goals decide +kernel

end Flo
