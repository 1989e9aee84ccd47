import Fledger.Crypto.Panics
import Fledger.Flo.Verify

namespace Flo

-- One of the checks of `verify` which come after the genesis: the condition of the signatures is
-- compared to the link in force, and then they are verified.
structure Check where
  signatures : ConditionSignature
  digest     : U256
  link       : ConditionLink

namespace Check

variable [Sha256] [Ed25519]

def Passes (k : Check) : Prop :=
  k.signatures.Accepted k.digest k.link

-- The first leaf of the link is a badge which is a trap for the condition.
def Trapped (k : Check) : Prop :=
  ∃ spec, k.link.shape.leaves.head? = some (.badge spec) ∧
    k.signatures.condition.trapped spec = true

def Fails (k : Check) : Prop :=
  k.Trapped ∨
    k.signatures.condition.equalLink k.link = .ok true ∧ k.signatures.Garbled k.digest

end Check

section

variable [Sha256]

def genesisCheck (f : Flo) : Check :=
  ⟨f.condGenesis.signatures, f.digestCondGenesis, f.condGenesis.cond⟩

def updateChecks (f : Flo) (ver : Nat) (prevCond : ConditionLink) : List CondVersion → List Check
  | []        => []
  | cv :: cvs =>
    ⟨cv.signatures, digestCondUpdate f.floId (.ofNat (ver + 1)) cv.cond, prevCond⟩ ::
      f.updateChecks (ver + 1) cv.cond cvs

variable [Target]

def dataCheck (f : Flo) : Check :=
  ⟨f.dataSignature, f.digestData, f.cond⟩

-- The checks after the one of the genesis, in their order.
def checks (f : Flo) : List Check :=
  f.updateChecks 0 f.condGenesis.cond f.condUpdate ++ [f.dataCheck]

variable [Ed25519]

-- The genesis is verified before it is compared.
def Hazardous (f : Flo) : Prop :=
  f.condGenesis.signatures.Garbled f.digestCondGenesis ∨
  f.condGenesis.signatures.verifyDigest f.digestCondGenesis = .ok true ∧ f.genesisCheck.Trapped ∨
  f.genesisCheck.Passes ∧ First Check.Passes Check.Fails f.checks

end

section

variable [Sha256] [Ed25519] {f : Flo} {k : Check}

omit [Ed25519] in
theorem Check.trapped_iff :
    k.signatures.condition.equalLink k.link = .error .panic ↔ k.Trapped :=
  Condition.equalLink_eq_panic

theorem Check.passes_iff : k.Passes ↔ (k.signatures.condition.equalLink k.link <&&>
    k.signatures.verifyDigest k.digest) = .ok true := by
  rw [Outcome.andM_eq_true]
  exact ⟨fun h => ⟨h.equalLink, h.verifyDigest⟩, fun h => ⟨h.left, h.right⟩⟩

theorem Check.fails_iff : k.Fails ↔ (k.signatures.condition.equalLink k.link <&&>
    k.signatures.verifyDigest k.digest) = .error .panic := by
  rw [Outcome.andM_eq_error, trapped_iff, ConditionSignature.verifyDigest_eq_panic, Fails]

theorem verifyUpdates_eq_panic {n : Nat} {prevCond : ConditionLink} {cvs : List CondVersion} :
    f.verifyUpdates n prevCond cvs = .error .panic ↔
      First Check.Passes Check.Fails (f.updateChecks n prevCond cvs) := by
  induction cvs generalizing n prevCond
  case nil            => simp [verifyUpdates, updateChecks, First.not_nil, Outcome.pure_ne_error]
  case cons cv cvs hi =>
    rw [verifyUpdates, updateChecks, First.cons_iff, Check.fails_iff, Check.passes_iff, ← hi]
    exact Outcome.ensure_eq_error (by simp)

theorem verifyUpdates_isOk {n : Nat} {prevCond : ConditionLink} {cvs : List CondVersion} :
    (∃ last, f.verifyUpdates n prevCond cvs = .ok last) ↔
      ∀ k ∈ f.updateChecks n prevCond cvs, k.Passes := by
  induction cvs generalizing n prevCond
  case nil            => simp [verifyUpdates, updateChecks]
  case cons cv cvs hi =>
    rw [updateChecks, List.forall_mem_cons, ← hi, Check.passes_iff]
    simp only [verifyUpdates, Outcome.ensure_eq_ok, exists_and_left]

variable [Target]

omit [Target] in
theorem eq_cond_of_verifyUpdates {last : ConditionLink}
    (h : f.verifyUpdates 0 f.condGenesis.cond f.condUpdate = .ok last) : last = f.cond := by
  have hl := verifyUpdates_eq_ok.mp h |>.left
  exact Option.some.inj <| hl.symm.trans f.cond_eq_getLast

-- What is left to do after the genesis.
theorem verify_rest_eq_panic :
    (do
      let prevCond ← f.verifyUpdates 0 f.condGenesis.cond f.condUpdate
      if !(← f.dataSignature.condition.equalLink prevCond <&&>
          f.dataSignature.verifyDigest f.digestData) then
        throw (.error .signatureMessageMismatch)
      return true : Result Bool) = .error .panic ↔ First Check.Passes Check.Fails f.checks := by
  rw [checks, First.append_iff, First.singleton_iff, ← verifyUpdates_eq_panic,
    ← verifyUpdates_isOk, Check.fails_iff, Outcome.bind_eq_error]
  refine or_congr_right ⟨?mp, ?mpr⟩
  case mp =>
    rintro ⟨last, hl, h⟩
    rw [eq_cond_of_verifyUpdates hl, Outcome.ensure_eq_error (by simp)] at h
    exact ⟨⟨last, hl⟩, h.resolve_right fun h => Outcome.pure_ne_error h.right⟩
  case mpr =>
    rintro ⟨⟨last, hl⟩, h⟩
    refine ⟨last, hl, ?_⟩
    rw [eq_cond_of_verifyUpdates hl, Outcome.ensure_eq_error (by simp)]
    exact .inl h

-- `verify` panics at the first hazard, if it gets there.
theorem verify_ne_panic_iff (f : Flo) : f.verify ≠ .error .panic ↔ ¬f.Hazardous := by
  rw [ne_eq, not_iff_not, verify, Outcome.ensure_eq_error (by simp), Outcome.andM_eq_error,
    Outcome.andM_eq_true, ConditionSignature.verifyDigest_eq_panic, or_assoc]
  refine or_congr_right <| or_congr (and_congr_right fun _ => ?trapped) (and_congr ?passes ?rest)
  case trapped => exact f.genesisCheck.trapped_iff
  case passes  => exact ⟨fun h => ⟨h.right, h.left⟩, fun h => ⟨h.verifyDigest, h.equalLink⟩⟩
  case rest    => exact verify_rest_eq_panic

end

section Concrete

attribute [local instance] Sha256.rolling Ed25519.plain Target.native64

def received (signatures : ConditionSignature) (cond : ConditionLink) : Flo where
  realm         := .zero
  floType       := "type"
  floConfig     := {}
  data          := []
  dataVersion   := 0
  dataSignature := .new .pass
  nonce         := .zero
  condGenesis   := { cond, signatures }
  condUpdate    := []

-- The signature of the only verifier is empty.
def emptySignature : Flo :=
  let alice := ConditionSignature.alice
  received ((ConditionSignature.new <| .verifier alice.verifier).add alice.getId [])
    (.verifier alice.getId)

-- With a badge of which a part is not available.
def unresolved : Flo :=
  received (.new <| .badge (.minimal .zero 0) .zero 0 <| .nofT 0 [.notAvailable])
    (.badge (.minimal .zero 0))

theorem emptySignature_unresolved_panic :
    emptySignature.verify = .error .panic ∧ unresolved.verify = .error .panic := by
  decide +kernel

end Concrete

end Flo
