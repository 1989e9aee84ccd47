import Fledger.Crypto.Concrete
import Fledger.Flo.Verify

namespace Flo

-- What `verify` accepts is sound exactly if no threshold of the conditions asks for more than its
-- members can provide.
theorem sound_iff_attainable [Sha256] [Ed25519] [Target] {f : Flo} (h : f.verify = .ok true) :
    f.Sound ↔ ∀ link ∈ f.conds, link.attainable :=
  (verify_eq_ok.mp h).right.iff_conds fun _ _ _ ha => ha.satisfies_iff

section

attribute [local instance] Sha256.rolling Ed25519.plain Target.native64

theorem sound_iff_attainable_signed : ∃ f,
    newSigner .zero (.verifier (Signer.ed25519 ⟨.zero⟩).verifier) "type" [1] {} .zero
      [.ed25519 ⟨.zero⟩] = .ok f ∧
    f.verify = .ok true ∧ (f.Sound ↔ ∀ link ∈ f.conds, link.attainable) := by
  have ⟨f, hf, hv⟩ := Outcome.bind_eq_ok.mp <| show
    newSigner .zero (.verifier (Signer.ed25519 ⟨.zero⟩).verifier) "type" [1] {} .zero
      [.ed25519 ⟨.zero⟩] >>= verify = .ok true by decide +kernel
  exact ⟨f, hf, hv, sound_iff_attainable hv⟩

-- Nobody can fulfil the condition of this flo.
def locked : Flo where
  realm         := .zero
  floType       := "type"
  floConfig     := {}
  data          := [1]
  dataVersion   := 1
  dataSignature := .new .pass
  nonce         := .zero
  condGenesis   := { cond := .nofT 1 [], signatures := .new .pass }
  condUpdate    := []

theorem locked_accepted_not_sound : locked.verify = .ok true ∧ ¬locked.Sound := by
  constructor
  case left => rfl
  case right =>
    intro h
    have ⟨_, _, h⟩ := h.genesis
    simp [locked, ConditionLink.formula, ConditionLink.shape, ConditionLink.shapes, Formula.bind,
      Formula.bindAll] at h

end

end Flo
