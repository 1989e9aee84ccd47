import Fledger.Crypto.Satisfies
import Fledger.Flo.Flo

namespace ConditionSignature

variable [Sha256] [Ed25519]

-- What `verify` checks in each of its steps.
structure Accepted (cs : ConditionSignature) (digest : U256) (link : ConditionLink) : Prop where
  equalLink    : cs.condition.equalLink link = .ok true
  verifyDigest : cs.verifyDigest digest = .ok true

theorem Accepted.satisfies_iff {cs : ConditionSignature} {digest : U256} {link : ConditionLink}
    (h : cs.Accepted digest link) : cs.Satisfies digest link ↔ link.attainable :=
  satisfies_iff_attainable h.equalLink h.verifyDigest

end ConditionSignature

namespace Flo

-- The links of the genesis and of all updates.
def conds (f : Flo) : List ConditionLink :=
  f.condGenesis.cond :: f.condUpdate.map CondVersion.cond

theorem conds_length (f : Flo) : f.conds.length = f.condUpdate.length + 1 := by
  simp [conds]

theorem cond_eq_getLast (f : Flo) : f.conds.getLast? = some f.cond := by
  cases h : f.condUpdate.getLast? <;> simp [conds, cond, latestCondVersion, h, List.getLast?_cons]

theorem cond_mem_conds (f : Flo) : f.cond ∈ f.conds :=
  List.mem_of_getLast? f.cond_eq_getLast

variable [Sha256] [Ed25519] [Target]

-- All signatures of the flo, each with the digest it is for and the link in force when it was made:
-- for an update, this is the link in front of it.
structure Steps (P : ConditionSignature → U256 → ConditionLink → Prop) (f : Flo) : Prop where
  genesis : P f.condGenesis.signatures f.digestCondGenesis f.condGenesis.cond
  updates : ∀ i link (cv : CondVersion), f.conds[i]? = some link → f.condUpdate[i]? = some cv →
    P cv.signatures (digestCondUpdate f.floId (.ofNat (i + 1)) cv.cond) link
  data    : P f.dataSignature f.digestData f.cond

-- What `verify` accepts.
def Verified (f : Flo) : Prop :=
  f.Steps ConditionSignature.Accepted

-- All signatures are made by keys which fulfil the link in force.
def Sound (f : Flo) : Prop :=
  f.Steps ConditionSignature.Satisfies

section

variable {P Q : ConditionSignature → U256 → ConditionLink → Prop} {R : ConditionLink → Prop}
  {f : Flo}

omit [Ed25519] in
theorem Steps.of_conds (hp : f.Steps P) (h : ∀ cs digest link, P cs digest link → R link →
    Q cs digest link) (hr : ∀ link ∈ f.conds, R link) : f.Steps Q where
  genesis := h _ _ _ hp.genesis <| hr _ (by simp [conds])
  updates := fun i link cv hi hcv => h _ _ _ (hp.updates i link cv hi hcv) <| hr link <|
    List.mem_of_getElem? hi
  data    := h _ _ _ hp.data <| hr _ f.cond_mem_conds

omit [Ed25519] in
-- Every link is in force at one of the signatures: the last one has no update behind it, but the
-- signature of the data.
theorem Steps.conds (hp : f.Steps P) (hq : f.Steps Q) (h : ∀ cs digest link, P cs digest link →
    Q cs digest link → R link) : ∀ link ∈ f.conds, R link := by
  intro link hl
  have ⟨i, hi⟩ := List.mem_iff_getElem?.mp hl
  cases hcv : f.condUpdate[i]?
  case some cv => exact h _ _ _ (hp.updates i link cv hi hcv) (hq.updates i link cv hi hcv)
  case none =>
    have hlen : i = f.condUpdate.length := by
      have hlt := List.getElem?_eq_some_iff.mp hi |>.choose
      have hge := List.getElem?_eq_none_iff.mp hcv
      rw [conds_length] at hlt
      omega
    have hc := f.cond_eq_getLast
    rw [List.getLast?_eq_getElem?, conds_length, Nat.add_sub_cancel, ← hlen, hi] at hc
    exact Option.some.inj hc ▸ h _ _ _ hp.data hq.data

omit [Ed25519] in
theorem Steps.iff_conds (hp : f.Steps P) (h : ∀ cs digest link, P cs digest link →
    (Q cs digest link ↔ R link)) : f.Steps Q ↔ ∀ link ∈ f.conds, R link :=
  ⟨fun hq => hp.conds hq fun _ _ _ hp => (h _ _ _ hp).mp,
   hp.of_conds fun _ _ _ hp => (h _ _ _ hp).mpr⟩

end

omit [Target] in
theorem verifyUpdates_eq_ok {f : Flo} {n : Nat} {prevCond last : ConditionLink}
    {cvs : List CondVersion} :
    f.verifyUpdates n prevCond cvs = .ok last ↔
      (prevCond :: cvs.map CondVersion.cond).getLast? = some last ∧
      ∀ i link (cv : CondVersion),
        (prevCond :: cvs.map CondVersion.cond)[i]? = some link → cvs[i]? = some cv →
        cv.signatures.Accepted (digestCondUpdate f.floId (.ofNat (n + i + 1)) cv.cond) link := by
  induction cvs generalizing n prevCond
  case nil => simp [verifyUpdates]
  case cons cv cvs hi =>
    simp only [verifyUpdates, Outcome.ensure_eq_ok, Outcome.andM_eq_true, hi]
    constructor
    case mp =>
      intro ⟨ha, hl, hu⟩
      refine ⟨by simpa [List.getLast?_cons] using hl, fun i link cv' hlink hcv => ?_⟩
      cases i
      case zero =>
        simp at hlink hcv
        subst hlink hcv
        exact ⟨ha.left, ha.right⟩
      case succ i =>
        have hd : n + 1 + i + 1 = n + (i + 1) + 1 := by omega
        exact hd ▸ hu i link cv' (by simpa using hlink) (by simpa using hcv)
    case mpr =>
      intro ⟨hl, hu⟩
      have h := hu 0 prevCond cv (by simp) (by simp)
      refine ⟨⟨h.equalLink, h.verifyDigest⟩, by simpa [List.getLast?_cons] using hl, ?_⟩
      intro i link cv' hlink hcv
      have hd : n + (i + 1) + 1 = n + 1 + i + 1 := by omega
      exact hd ▸ hu (i + 1) link cv' (by simpa using hlink) (by simpa using hcv)

theorem verify_eq_ok {f : Flo} {b : Bool} : f.verify = .ok b ↔ b = true ∧ f.Verified := by
  simp only [verify, Outcome.ensure_eq_ok, Outcome.andM_eq_true]
  rw [Outcome.bind_eq_ok]
  simp only [Outcome.ensure_eq_ok, Outcome.andM_eq_true, verifyUpdates_eq_ok, Outcome.pure_eq_ok]
  constructor
  case mp =>
    rintro ⟨⟨hgv, hge⟩, last, ⟨hl, hu⟩, ⟨hde, hdv⟩, hb⟩
    have hlast : f.cond = last := Option.some.inj (f.cond_eq_getLast.symm.trans hl)
    refine ⟨hb.symm, ⟨hge, hgv⟩, fun i link cv hlink hcv => ?_, ⟨hlast ▸ hde, hdv⟩⟩
    simpa using hu i link cv hlink hcv
  case mpr =>
    rintro ⟨hb, h⟩
    refine ⟨⟨h.genesis.verifyDigest, h.genesis.equalLink⟩, f.cond, ⟨f.cond_eq_getLast, ?_⟩,
      ⟨h.data.equalLink, h.data.verifyDigest⟩, hb.symm⟩
    intro i link cv hlink hcv
    simpa using h.updates i link cv hlink hcv

end Flo
