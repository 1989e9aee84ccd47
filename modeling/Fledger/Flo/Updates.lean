import Fledger.Flo.Integrity

-- A call of `update_data` or of `update_cond`.
inductive SignedUpdate
  | data (u : UpdateDataSign)
  | cond (u : UpdateCondSign)

def SignedUpdate.isData : SignedUpdate → Bool
  | data _ => true
  | cond _ => false

namespace Flo

section Theory

variable [Sha256] [Ed25519] [Target] {f f' : Flo} {us : List SignedUpdate}

def applyUpdate (f : Flo) : SignedUpdate → Result Flo
  | .data u => f.updateData u
  | .cond u => f.updateCond u

def applyUpdates (f : Flo) (us : List SignedUpdate) : Result Flo :=
  us.foldlM applyUpdate f

-- What the updates of a flo leave as it is.
structure SameFlo (f f' : Flo) : Prop where
  realm       : f'.realm = f.realm
  floType     : f'.floType = f.floType
  floConfig   : f'.floConfig = f.floConfig
  nonce       : f'.nonce = f.nonce
  condGenesis : f'.condGenesis = f.condGenesis

omit [Ed25519] [Target] in
theorem SameFlo.floId (h : SameFlo f f') : f'.floId = f.floId := by
  rw [Flo.floId, Flo.floId, digestCondGenesis, digestCondGenesis, h.floType, h.floConfig, h.nonce,
    h.condGenesis]

theorem applyUpdate_eq_ok {u : SignedUpdate} (h : f.applyUpdate u = .ok f') :
    SameFlo f f' ∧ f'.version = f.version + .ofNat u.isData.toNat := by
  cases u
  case data =>
    have ⟨_, _, hf⟩ := updateData_eq_ok.mp h
    exact hf ▸ ⟨⟨rfl, rfl, rfl, rfl, rfl⟩, rfl⟩
  case cond =>
    have hf := updateCond_eq_ok.mp h
    exact hf ▸ ⟨⟨rfl, rfl, rfl, rfl, rfl⟩, (UInt32.add_zero _).symm⟩

-- Only the updates of the data count as new versions.
theorem applyUpdates_eq_ok (h : f.applyUpdates us = .ok f') :
    SameFlo f f' ∧ f'.version = f.version + .ofNat (us.countP SignedUpdate.isData) := by
  induction us generalizing f
  case nil =>
    cases Outcome.pure_eq_ok.mp h
    exact ⟨⟨rfl, rfl, rfl, rfl, rfl⟩, (UInt32.add_zero _).symm⟩
  case cons u us hi =>
    have ⟨f₁, h₁, h⟩ := Outcome.bind_eq_ok.mp h
    have ⟨hs₁, hv₁⟩ := applyUpdate_eq_ok h₁
    have ⟨hs, hv⟩ := hi h
    refine ⟨⟨hs.realm.trans hs₁.realm, hs.floType.trans hs₁.floType,
      hs.floConfig.trans hs₁.floConfig, hs.nonce.trans hs₁.nonce,
      hs.condGenesis.trans hs₁.condGenesis⟩, ?_⟩
    rw [hv, hv₁, UInt32.add_assoc, ← UInt32.ofNat_add, List.countP_cons]
    cases u.isData <;> simp [Nat.add_comm]

-- What `update_cond` makes of a flo.
def withCond (f : Flo) (u : UpdateCondSign) : Flo :=
  { f with
    condUpdate    := f.condUpdate ++ [{ cond := u.cond, signatures := u.signatureCond }]
    dataSignature := u.signatureData }

-- The checks of `verify` which `update_data` and `update_cond` do not make.
def Admits (f : Flo) : SignedUpdate → Prop
  | .data u => u.signature.condition.equalLink f.cond = .ok true
  | .cond u =>
    u.signatureCond.Accepted (digestCondUpdate f.floId (.ofNat (f.condUpdate.length + 1)) u.cond)
      f.cond ∧
    u.signatureData.Accepted (f.withCond u).digestData u.cond

section Steps

variable {P : ConditionSignature → U256 → ConditionLink → Prop}

omit [Ed25519] in
-- Only the data and their signature are new.
theorem Steps.data_iff (hs : f.Steps P) (hf : SameFlo f f') (hu : f'.condUpdate = f.condUpdate) :
    f'.Steps P ↔ P f'.dataSignature f'.digestData f.cond := by
  have hc : f'.conds = f.conds := by rw [Flo.conds, Flo.conds, hf.condGenesis, hu]
  have hl : f'.cond = f.cond := by
    rw [cond, cond, latestCondVersion, latestCondVersion, hf.condGenesis, hu]
  have hg : f'.digestCondGenesis = f.digestCondGenesis := by
    rw [digestCondGenesis, digestCondGenesis, hf.floType, hf.floConfig, hf.nonce, hf.condGenesis]
  constructor
  case mp  => exact fun h => hl ▸ h.data
  case mpr =>
    intro h
    constructor
    case genesis => rw [hg, hf.condGenesis]; exact hs.genesis
    case updates => rw [hc, hu, hf.floId]; exact hs.updates
    case data    => rwa [hl]

omit [Ed25519] in
-- Besides, one more update of the condition is signed.
theorem Steps.cond_iff {u : UpdateCondSign} (hs : f.Steps P) : (f.withCond u).Steps P ↔
    P u.signatureCond (digestCondUpdate f.floId (.ofNat (f.condUpdate.length + 1)) u.cond) f.cond ∧
    P u.signatureData (f.withCond u).digestData u.cond := by
  have hid : (f.withCond u).floId = f.floId := rfl
  have hconds : (f.withCond u).conds = f.conds ++ [u.cond] := by simp [Flo.conds, withCond]
  have hcond : (f.withCond u).cond = u.cond := by simp [withCond, cond, latestCondVersion]
  have hlast : f.conds[f.condUpdate.length]? = some f.cond := by
    rw [← f.cond_eq_getLast, List.getLast?_eq_getElem?, conds_length, Nat.add_sub_cancel]
  have hlink i (hi : i ≤ f.condUpdate.length) : (f.withCond u).conds[i]? = f.conds[i]? := by
    rw [hconds, List.getElem?_append_left]
    rw [conds_length]
    omega
  have hcv : (f.withCond u).condUpdate[f.condUpdate.length]? = some ⟨u.cond, u.signatureCond⟩ := by
    simp [withCond]
  constructor
  case mp =>
    intro h
    refine ⟨?_, hcond ▸ h.data⟩
    exact hid ▸ h.updates _ _ _ ((hlink _ (Nat.le_refl _)).trans hlast) hcv
  case mpr =>
    intro h
    constructor
    case genesis => exact hs.genesis
    case data    => exact hcond.symm ▸ h.right
    case updates =>
      intro i link cv hi hc
      rw [hid]
      have hlt : i < f.condUpdate.length + 1 := by
        have hlt := (List.getElem?_eq_some_iff.mp hc).choose
        simpa [withCond] using hlt
      rw [hlink i (by omega)] at hi
      by_cases he : i = f.condUpdate.length
      case pos =>
        rw [he, hcv] at hc
        rw [he, hlast] at hi
        cases hc
        cases hi
        exact he ▸ h.left
      case neg =>
        have hc : f.condUpdate[i]? = some cv := by
          rw [← hc, withCond, List.getElem?_append_left (by omega)]
        exact hs.updates i link cv hi hc

end Steps

-- An update of a verified flo verifies if and only if it passes the checks which are not made.
theorem verify_update_iff {u : SignedUpdate} (hf : f.verify = .ok true)
    (h : f.applyUpdate u = .ok f') : f'.verify = .ok true ↔ f.Admits u := by
  have hs : f.Verified := (verify_eq_ok.mp hf).right
  rw [verify_eq_ok, eq_self, true_and]
  cases u
  case data u =>
    have ⟨hv, hd, he⟩ := updateData_eq_ok.mp h
    have hsame : SameFlo f f' := he ▸ ⟨rfl, rfl, rfl, rfl, rfl⟩
    have hu : f'.condUpdate = f.condUpdate := he ▸ rfl
    have hsig : f'.dataSignature = u.signature := he ▸ rfl
    rw [Verified, hs.data_iff hsame hu, hsig, hd]
    exact ⟨fun ha => ha.equalLink, fun ha => ⟨ha, hv⟩⟩
  case cond u =>
    have he : f' = f.withCond u := updateCond_eq_ok.mp h
    rw [Verified, he]
    exact hs.cond_iff

end Theory

section Concrete

attribute [local instance] Sha256.rolling Ed25519.plain Target.native64

-- The owner changes the data.
def renewal : UpdateDataSign :=
  let u := signed.startSignData (.verifier owner.verifier) [7]
  { u with signature := signedBy owner u.digest }

theorem verify_update_iff_renewal : ∃ f', signed.applyUpdate (.data renewal) = .ok f' ∧
    (f'.verify = .ok true ↔ signed.Admits (.data renewal)) ∧ f'.verify = .ok true := by
  have ⟨f', h⟩ : ∃ f', signed.applyUpdate (.data renewal) = .ok f' :=
    ⟨_, updateData_eq_ok.mpr ⟨by decide +kernel, by decide +kernel, rfl⟩⟩
  have ha : signed.Admits (.data renewal) := by
    unfold Admits
    decide +kernel
  exact ⟨f', h, verify_update_iff signed_verify h, verify_update_iff signed_verify h |>.mpr ha⟩

-- Updates of somebody else, who says that everybody may make them.
def takeover : UpdateCondSign where
  cond          := .pass
  digestData    := .zero
  digestCond    := .zero
  signatureData := .new .pass
  signatureCond := .new .fail

def takeoverData : UpdateDataSign :=
  signed.startSignData .pass [7]

theorem signed_taken_over : signed.verify = .ok true ∧
    (∃ f', signed.updateCond takeover = .ok f' ∧ f'.verify ≠ .ok true) ∧
    ∃ f', signed.updateData takeoverData = .ok f' ∧ f'.verify ≠ .ok true := by
  refine ⟨signed_verify, ⟨_, rfl, ?_⟩, ⟨_, updateData_eq_ok.mpr ⟨?_, ?_, rfl⟩, ?_⟩⟩
  all_goals decide +kernel

end Concrete

end Flo
