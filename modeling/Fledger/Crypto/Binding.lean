import Fledger.Crypto.Concrete
import Fledger.Crypto.Satisfies

-- A signature is valid for one digest only.
def Ed25519.Binding (E : Ed25519) : Prop :=
  ∀ key (d d' : U256) sig, E.verifyStrict key d.bytes sig = true →
    E.verifyStrict key d'.bytes sig = true → d = d'

theorem Ed25519.plain_binding : plain.Binding := by
  intro key d d' sig h h'
  have he : plainSignature key d.bytes = plainSignature key d'.bytes :=
    (eq_of_beq h).symm.trans (eq_of_beq h')
  have htake (d : U256) : plainSignature key d.bytes = key.bytes ++ d.bytes := by
    apply List.take_left'
    simp [U256.length_bytes]
  rw [htake, htake] at he
  exact U256.ext <| List.append_cancel_left he

theorem Verifier.digest_eq [Ed25519] (hb : Ed25519.Binding ‹_›) {v : Verifier} {d d' : U256}
    {sig : Signature} (h : v.accepts d.bytes sig = true) (h' : v.accepts d'.bytes sig = true) :
    d = d' := by
  cases v
  case ed25519 v =>
    have hs {d : U256} (h : (Verifier.ed25519 v).accepts d.bytes sig = true) :
        Ed25519.verifyStrict v.verifier d.bytes sig = true := by
      by_contra hn
      have hv := Verifier.verify_eq_ok.mpr h
      simp only [verify, VerifierEd25519.verify, if_neg hn] at hv
      split at hv <;> simp at hv
    exact hb _ _ _ _ (hs h) (hs h')

namespace ConditionSignature

variable [Sha256] [Ed25519] {cs : ConditionSignature} {d d' : U256} {c : Condition} {b : Bool}
  {n m : Nat}

-- The condition is not fulfilled without any signatures.
def NeedsSignature (cs : ConditionSignature) : Prop :=
  cs.condition.formula.eval (fun _ => false) = false

theorem verifyCond_of_verifyConds {conditions : List Condition}
    (h : cs.verifyConds d n conditions = .ok m) :
    ∀ c ∈ conditions, ∃ b, cs.verifyCond d c = .ok b := by
  induction conditions generalizing n <;> simp only [verifyConds, Outcome.bind_eq_ok] at h
  case nil => simp
  case cons c conditions hi =>
    obtain ⟨b, hb, h⟩ := h
    have hrest : ∀ c ∈ conditions, ∃ b, cs.verifyCond d c = .ok b := by
      cases b
      case false => exact hi h
      case true  => exact hi h
    exact List.forall_mem_cons.mpr ⟨⟨b, hb⟩, hrest⟩

-- All signatures of keys in the condition are checked, not only as many as it needs.
theorem accepts_of_verifyCond (h : cs.verifyCond d c = .ok b) : ∀ v ∈ c.formula.leaves, ∀ sig,
    cs.signatures.lookup v.getId = some sig → v.accepts d.bytes sig = true := by
  induction c using Condition.rec' generalizing b <;>
    simp only [verifyCond, Outcome.bind_eq_ok] at h
  case verifier v =>
    intro v' hv sig hl
    cases List.mem_singleton.mp hv
    simp only [hl, Outcome.bind_eq_ok] at h
    obtain ⟨_, h, _⟩ := h
    exact Verifier.verify_eq_ok.mp h
  case badge hi => exact hi h
  case nofT thr conditions hi =>
    obtain ⟨m, hm, _⟩ := h
    intro v hv
    simp only [Condition.formula, Formula.leaves, Condition.formulas_eq_map, Formula.mem_leavesAll,
      List.mem_map] at hv
    obtain ⟨_, ⟨c, hc, rfl⟩, hv⟩ := hv
    obtain ⟨b, hb⟩ := verifyCond_of_verifyConds hm c hc
    exact hi c hc hb v hv
  all_goals simp [Condition.formula, Formula.leaves]

-- The same signatures do not verify for two digests.
theorem digest_eq (hb : Ed25519.Binding ‹_›) (hn : cs.NeedsSignature)
    (h : cs.verifyDigest d = .ok true) (h' : cs.verifyDigest d' = .ok true) : d = d' := by
  have ⟨v, hv, hs⟩ := Formula.exists_leaf_of_eval hn (verifyCond_eq_ok h)
  have ⟨sig, hl, ha⟩ := Option.any_eq_true .. |>.mp hs
  exact v.digest_eq hb ha (accepts_of_verifyCond h' v hv sig hl)

end ConditionSignature
