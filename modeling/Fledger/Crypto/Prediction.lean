import Fledger.Crypto.Evaluation

namespace Condition

variable [Sha256]

-- There is a leaf which is enough with this signer, as there are only badges and thresholds of one
-- above it.
inductive Direct (vid : KeyPairID) : Condition → Prop
  | verifier {v} : v.getId = vid → Direct vid (.verifier v)
  | pass : Direct vid .pass
  | badge {spec id version c} : Direct vid c → Direct vid (.badge spec id version c)
  | nofT {cs c} : c ∈ cs → Direct vid c → Direct vid (.nofT 1 cs)

variable {c : Condition} {cs : List Condition} {vid : KeyPairID}

-- Where the prediction is right: if the signers are enough, then `can_sign` has to see it.
def Foreseen (c : Condition) : List KeyPairID → Prop
  | []    => c = pass ∨ c.formula.eval (fun _ => false) = false
  | [vid] => Direct vid c ∨ c.formula.eval (fun v => v.getId = vid) = false
  | _     => False

theorem Direct.eval (h : Direct vid c) : c.formula.eval (fun v => v.getId = vid) = true := by
  induction h
  case verifier h     => simpa [formula] using h
  case pass           => simp [formula]
  case badge hi       => exact hi
  case nofT hm _ hi   =>
    rw [formula, formulas_eq_map, Formula.eval_atLeast, decide_eq_true_eq]
    exact List.countP_pos_iff.mpr ⟨_, List.mem_map_of_mem hm, hi⟩

theorem canSignAny_cases (h : ∀ c ∈ cs, ∃ b, c.canSign [vid] = .ok b ∧ (b = true ↔ Direct vid c)) :
    ∃ b, canSignAny vid cs = .ok b ∧ (b = true ↔ ∃ c ∈ cs, Direct vid c) := by
  induction cs
  case nil          => exact ⟨false, by rw [canSignAny]; rfl, by simp⟩
  case cons c cs hi =>
    obtain ⟨⟨b, hb, hc⟩, h⟩ := List.forall_mem_cons.mp h
    rw [canSignAny, hb, Outcome.ok_bind]
    cases b
    case true =>
      exact ⟨true, rfl, iff_of_true rfl ⟨c, List.mem_cons_self, hc.mp rfl⟩⟩
    case false =>
      obtain ⟨b, hb, hm⟩ := hi h
      refine ⟨b, hb, ?_⟩
      have hn : ¬Direct vid c := fun hd => Bool.false_ne_true (hc.mpr hd)
      simp [hm, hn]

-- One signer never makes it panic.
theorem canSign_singleton (c : Condition) (vid : KeyPairID) :
    ∃ b, c.canSign [vid] = .ok b ∧ (b = true ↔ Direct vid c) := by
  induction c using rec'
  case verifier v =>
    refine ⟨v.getId == vid, by simp [canSign], ?_⟩
    rw [beq_iff_eq]
    exact ⟨.verifier, fun | .verifier h => h⟩
  case badge spec id version c hi =>
    obtain ⟨b, hb, hd⟩ := hi
    exact ⟨b, by simpa [canSign] using hb, hd.trans ⟨.badge, fun | .badge h => h⟩⟩
  case nofT thr cs hi =>
    obtain ⟨b, hb, hd⟩ := canSignAny_cases hi
    refine ⟨b && thr == 1, by simp [canSign, hb], ?_⟩
    rw [Bool.and_eq_true, beq_iff_eq, hd]
    constructor
    case mp  =>
      rintro ⟨⟨c, hm, hd⟩, rfl⟩
      exact .nofT hm hd
    case mpr =>
      rintro (_ | _ | _ | ⟨hm, hd⟩)
      exact ⟨⟨_, hm, hd⟩, rfl⟩
  case notAvailable => exact ⟨false, by simp [canSign], by simp; exact nofun⟩
  case fail         => exact ⟨false, by simp [canSign], by simp; exact nofun⟩
  case pass         => exact ⟨true, by simp [canSign], iff_of_true rfl .pass⟩

theorem canSign_nil (c : Condition) : ∃ b, c.canSign [] = .ok b ∧ (b = true ↔ c = pass) := by
  cases c
  case pass => exact ⟨true, by rw [canSign.eq_def]; rfl, by simp⟩
  all_goals exact ⟨false, by rw [canSign.eq_def]; rfl, by simp⟩

theorem canSign_eq_panic {u v : KeyPairID} {vids : List KeyPairID} :
    c.canSign (u :: v :: vids) = .error .panic := by
  rw [canSign.eq_def, if_pos (by simp)]
  rfl

end Condition

namespace ConditionSignature

section

variable [Sha256] [Ed25519] (cs : ConditionSignature) (digest : U256) (vids : List KeyPairID)

-- There are signatures by exactly these keys, and the verifiers in the condition accept them.
structure SignedExactly : Prop where
  signers : ∀ id, (cs.signatures.lookup id).isSome ↔ id ∈ vids
  valid   : ∀ v ∈ cs.condition.formula.leaves, ∀ sig,
    cs.signatures.lookup v.getId = some sig → v.accepts digest.bytes sig = true

def Predicted : Prop :=
  ∃ b, cs.condition.canSign vids = .ok b ∧ (b = true ↔ cs.verifyDigest digest = .ok true)

variable {cs digest vids}

-- What `verify_digest` evaluates for these signers.
theorem SignedExactly.verifyDigest_iff (h : cs.SignedExactly digest vids) :
    cs.verifyDigest digest = .ok true ↔
      cs.condition.formula.eval (fun v => v.getId ∈ vids) = true := by
  have hr : ∀ v ∈ cs.condition.formula.leaves, ¬cs.Rejected digest v := by
    rintro v hv ⟨sig, hs, ha⟩
    exact Bool.false_ne_true <| ha.symm.trans <| h.valid v hv sig hs
  rw [verifyDigest, verifyCond_eq_true, and_iff_left hr]
  have hs : ∀ v ∈ cs.condition.formula.leaves,
      cs.signed digest v = decide (v.getId ∈ vids) := by
    intro v hv
    have hi := h.signers v.getId
    rw [signed]
    cases hl : cs.signatures.lookup v.getId
    case none     => simpa [hl] using hi
    case some sig => simpa [hl, h.valid v hv sig hl] using hi
  rw [Formula.eval_congr hs]

-- A prediction which is never true too often is right if it is true, or if nothing verifies.
theorem SignedExactly.predicted_iff_of_ok (h : cs.SignedExactly digest vids) {b : Bool} {P : Prop}
    (hb : cs.condition.canSign vids = .ok b) (hp : b = true ↔ P)
    (he : P → cs.condition.formula.eval (fun v => v.getId ∈ vids) = true) :
    cs.Predicted digest vids ↔
      P ∨ cs.condition.formula.eval (fun v => v.getId ∈ vids) = false := by
  simp only [Predicted, h.verifyDigest_iff, hb, Except.ok.injEq, exists_eq_left', hp]
  rw [← Bool.not_eq_true]
  exact ⟨fun hi => (em _).imp_right (mt hi.mpr), fun h => ⟨he, h.resolve_right ∘ not_not.mpr⟩⟩

-- `can_sign` predicts the verification for at most one signer, and unless the signer is enough for
-- a condition with other thresholds.
theorem SignedExactly.predicted_iff (h : cs.SignedExactly digest vids) :
    cs.Predicted digest vids ↔ cs.condition.Foreseen vids := by
  match vids with
  | []             =>
    obtain ⟨b, hb, hp⟩ := cs.condition.canSign_nil
    rw [h.predicted_iff_of_ok hb hp (fun hp => by rw [hp]; simp [Condition.formula])]
    simp [Condition.Foreseen]
  | [vid]          =>
    obtain ⟨b, hb, hd⟩ := cs.condition.canSign_singleton vid
    have he : (fun v : Verifier => decide (v.getId ∈ [vid])) = fun v => decide (v.getId = vid) := by
      simp only [List.mem_singleton]
    rw [h.predicted_iff_of_ok hb hd (fun hd => by rw [he]; exact hd.eval), he]
    rfl
  | _ :: _ :: vids => simp [Predicted, Condition.canSign_eq_panic, Condition.Foreseen]

theorem signedExactly_new (c : Condition) : (new c).SignedExactly digest [] where
  signers _        := by simp [new]
  valid _ _ _ hs   := by simp [new] at hs

theorem SignedExactly.add (h : cs.SignedExactly digest vids) {id : KeyPairID} {sig : Signature}
    (hv : ∀ v ∈ cs.condition.formula.leaves, v.getId = id → v.accepts digest.bytes sig = true) :
    (cs.add id sig).SignedExactly digest (id :: vids) where
  signers i := by
    rw [lookup_add, List.mem_cons, ← h.signers]
    split <;> simp_all
  valid v hm s hs := by
    rw [lookup_add] at hs
    split at hs
    case isTrue hi  => exact Option.some.inj hs ▸ hv v hm hi
    case isFalse    => exact h.valid v hm s hs

end

section

attribute [local instance] Sha256.rolling Ed25519.plain

def aliceAndPass : Condition :=
  .nofT 2 [.pass, .verifier alice.verifier]

def alicePassed : ConditionSignature :=
  (new aliceAndPass).add alice.getId (Ed25519.plainSignature .zero U256.zero.bytes)

def bothSigned : ConditionSignature :=
  aliceSigned.add bob.getId (Ed25519.plainSignature (.ofPrefix [1]) U256.zero.bytes)

theorem signedExactly_aliceSigned : aliceSigned.SignedExactly .zero [alice.getId] :=
  signedExactly_new _ |>.add (by decide +kernel)

theorem signedExactly_alicePassed : alicePassed.SignedExactly .zero [alice.getId] :=
  signedExactly_new _ |>.add (by decide +kernel)

theorem signedExactly_bothSigned : bothSigned.SignedExactly .zero [bob.getId, alice.getId] :=
  signedExactly_aliceSigned.add (by decide +kernel)

-- Two signers, the second of two which are needed, and nobody.
theorem not_predicted :
    (aliceAndPass.hasVerifier alice.getId = true ∧ oneOfTwo.hasVerifier alice.getId = true ∧
      oneOfTwo.hasVerifier bob.getId = true) ∧
      (bothSigned.SignedExactly .zero [bob.getId, alice.getId] ∧
        [bob.getId, alice.getId].Nodup ∧
        oneOfTwo.canSign [bob.getId, alice.getId] = .error .panic ∧
        ¬bothSigned.Predicted .zero [bob.getId, alice.getId]) ∧
      (alicePassed.SignedExactly .zero [alice.getId] ∧
        aliceAndPass.canSign [alice.getId] = .ok false ∧
        alicePassed.verifyDigest .zero = .ok true ∧ ¬alicePassed.Predicted .zero [alice.getId]) ∧
      ((new (.nofT 1 [.pass])).SignedExactly .zero [] ∧
        Condition.canSign [] (.nofT 1 [.pass]) = .ok false ∧
        (new (.nofT 1 [.pass])).verifyDigest .zero = .ok true ∧
        ¬(new (.nofT 1 [.pass])).Predicted .zero []) := by
  have hp : aliceAndPass.canSign [alice.getId] = .ok false ∧
      alicePassed.verifyDigest .zero = .ok true ∧
      Condition.canSign [] (.nofT 1 [.pass]) = .ok false ∧
      (new (.nofT 1 [.pass])).verifyDigest .zero = .ok true := by decide +kernel
  obtain ⟨ha, hav, hn, hnv⟩ := hp
  refine ⟨by decide +kernel, ⟨signedExactly_bothSigned, by decide +kernel, ?panic, ?both⟩,
    ⟨signedExactly_alicePassed, ha, hav, ?two⟩, ⟨signedExactly_new _, hn, hnv, ?nobody⟩⟩
  case panic  => exact Condition.canSign_eq_panic
  case both   =>
    rintro ⟨b, hb, -⟩
    cases Condition.canSign_eq_panic.symm.trans hb
  case two    =>
    rintro ⟨b, hb, h⟩
    cases ha.symm.trans hb
    exact Bool.false_ne_true (h.mpr hav)
  case nobody =>
    rintro ⟨b, hb, h⟩
    cases hn.symm.trans hb
    exact Bool.false_ne_true (h.mpr hnv)

theorem predicted_aliceSigned :
    aliceSigned.Predicted .zero [alice.getId] ∧ ¬alicePassed.Predicted .zero [alice.getId] := by
  have hd : oneOfTwo.Foreseen [alice.getId] := .inl <| .nofT (.head _) (.verifier rfl)
  refine ⟨signedExactly_aliceSigned.predicted_iff.mpr hd, fun h => ?_⟩
  rcases signedExactly_alicePassed.predicted_iff.mp h with hn | hn
  case inl => cases hn
  case inr => exact absurd hn (by decide +kernel)

end

end ConditionSignature
