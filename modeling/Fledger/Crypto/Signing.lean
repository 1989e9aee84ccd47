import Fledger.Crypto.Satisfies

-- The signers are allowed to sign, and together they fulfil the condition. The ids under which
-- their keys are looked up do not collide.
structure Condition.SignedBy [Sha256] [Ed25519] (c : Condition) (signers : List Signer) : Prop where
  belong      : ∀ s ∈ signers, c.hasVerifier s.getId = true
  satisfy     : c.formula.eval (fun v => v ∈ signers.map Signer.verifier) = true
  noCollision : ∀ v ∈ c.formula.leaves, ∀ s ∈ signers, s.getId = v.getId → s.verifier = v

namespace ConditionSignature

variable [Sha256] [Ed25519]

-- The signatures are exactly those which the signers make.
structure MadeBy (cs : ConditionSignature) (digest : U256) (signers : List Signer) : Prop where
  made  : ∀ id sig, cs.signatures.lookup id = some sig →
    ∃ s ∈ signers, s.getId = id ∧ s.sign digest.bytes = .ok sig
  found : ∀ s ∈ signers, ∃ sig, cs.signatures.lookup s.getId = some sig

variable {cs cs' : ConditionSignature} {digest : U256} {signers : List Signer} {s : Signer}

omit [Sha256] [Ed25519] in
theorem new_lookup (c : Condition) (id : KeyPairID) : (new c).signatures.lookup id = none :=
  AList.lookup_empty id

theorem MadeBy.new (c : Condition) (digest : U256) : (new c).MadeBy digest [] where
  made  := by simp [new_lookup]
  found := by simp

theorem signDigest_eq_ok : cs.signDigest s digest = .ok cs' ↔
    cs.condition.hasVerifier s.getId = true ∧ ∃ sig, s.sign digest.bytes = .ok sig ∧
      cs' = { cs with signatures := cs.signatures.insert s.getId sig } := by
  rw [signDigest]
  cases cs.condition.hasVerifier s.getId
  case false => simp
  case true  =>
    simp only [Bool.not_true, Bool.false_eq_true, if_false, Outcome.bind_eq_ok, Outcome.pure_eq_ok,
      true_and]
    exact exists_congr fun sig => and_congr_right fun _ => eq_comm

theorem MadeBy.signDigest (h : cs.MadeBy digest signers) (hs : cs.signDigest s digest = .ok cs') :
    cs'.MadeBy digest (signers ++ [s]) := by
  have ⟨_, sig, hsig, hcs⟩ := signDigest_eq_ok.mp hs
  subst hcs
  constructor
  case made =>
    intro id sig' hl
    rw [HashMap.lookup_insert_eq] at hl
    split at hl
    case isTrue hid =>
      cases hl
      exact ⟨s, by simp, hid.symm, hsig⟩
    case isFalse =>
      have ⟨s', hm, hs'⟩ := h.made id sig' hl
      exact ⟨s', by simp [hm], hs'⟩
  case found =>
    intro s' hm
    rw [HashMap.lookup_insert_eq]
    split
    case isTrue => exact ⟨sig, rfl⟩
    case isFalse hid =>
      simp only [List.mem_append, List.mem_singleton] at hm
      exact h.found s' <| hm.resolve_right fun he => hid (he ▸ rfl)

-- What has been signed so far are the signatures of `done`.
theorem signersDigest_madeBy_append {done : List Signer} (h : cs.MadeBy digest done)
    (hs : cs.signersDigest signers digest = .ok cs') :
    cs'.condition = cs.condition ∧ cs'.MadeBy digest (done ++ signers) := by
  induction signers generalizing cs done <;> simp only [signersDigest, List.foldlM_nil,
    List.foldlM_cons, Outcome.pure_eq_ok, Outcome.bind_eq_ok] at hs
  case nil => exact hs ▸ ⟨rfl, by simpa using h⟩
  case cons s signers hi =>
    obtain ⟨cs₁, h₁, hs⟩ := hs
    obtain ⟨hc, hm⟩ := hi (h.signDigest h₁) hs
    obtain ⟨_, _, _, hcs₁⟩ := signDigest_eq_ok.mp h₁
    exact ⟨hc.trans (hcs₁ ▸ rfl), by simpa using hm⟩

theorem signersDigest_new {c : Condition} (hs : (new c).signersDigest signers digest = .ok cs') :
    cs'.condition = c ∧ cs'.MadeBy digest signers :=
  signersDigest_madeBy_append (.new c digest) hs

omit [Sha256] in
theorem sign_eq_ok (s : Signer) (msg : Bytes) : ∃ sig, s.sign msg = .ok sig := by
  cases s
  case ed25519 => exact ⟨_, rfl⟩

theorem signersDigest_ok (h : ∀ s ∈ signers, cs.condition.hasVerifier s.getId = true) :
    ∃ cs', cs.signersDigest signers digest = .ok cs' := by
  induction signers generalizing cs
  case nil => exact ⟨cs, rfl⟩
  case cons s signers hi =>
    have ⟨sig, hsig⟩ := sign_eq_ok s digest.bytes
    have h₁ := signDigest_eq_ok.mpr ⟨h s (by simp), sig, hsig, rfl⟩
    have ⟨cs', hs⟩ := @hi { cs with signatures := cs.signatures.insert s.getId sig }
      fun s' hm => h s' (by simp [hm])
    exact ⟨cs', Outcome.bind_eq_ok.mpr ⟨_, h₁, hs⟩⟩

-- A signature which was made honestly is found under the id of its key, and it is valid.
theorem MadeBy.signed_eq (h : cs.MadeBy digest signers) (hc : Ed25519.Correct ‹_›) {v : Verifier}
    (hv : ∀ s ∈ signers, s.getId = v.getId → s.verifier = v) :
    cs.signed digest v = decide (v ∈ signers.map Signer.verifier) := by
  rw [Bool.eq_iff_iff, decide_eq_true_eq, List.mem_map]
  constructor
  case mp =>
    intro hs
    cases hl : cs.signatures.lookup v.getId <;> simp [signed, hl] at hs
    obtain ⟨s, hm, hid, _⟩ := h.made _ _ hl
    exact ⟨s, hm, hv s hm hid⟩
  case mpr =>
    rintro ⟨s, hm, hs⟩
    obtain ⟨sig, hl⟩ := h.found s hm
    rw [s.getId_eq, hs] at hl
    obtain ⟨s', hm', hid, hsig⟩ := h.made _ _ hl
    obtain ⟨sig', hsig', ha⟩ := s'.sign_accepted hc digest.bytes
    have he : sig' = sig := Except.ok.inj (hsig'.symm.trans hsig)
    simp [signed, hl, ← he, ← hv s' hm' hid, ha]

theorem verifyConds_ok {conditions : List Condition} (n : Nat)
    (h : ∀ c ∈ conditions, ∃ b, cs.verifyCond digest c = .ok b) :
    ∃ m, cs.verifyConds digest n conditions = .ok m := by
  induction conditions generalizing n
  case nil => exact ⟨n, rfl⟩
  case cons c conditions hi =>
    have ⟨b, hb⟩ := h c (by simp)
    have hi n := hi n fun c hm => h c (by simp [hm])
    cases b
    case false => simpa [verifyConds, hb] using hi n
    case true  => simpa [verifyConds, hb] using hi (n + 1)

-- Where all signatures are valid, evaluating a condition does not fail.
theorem verifyCond_ok {c : Condition} (h : ∀ v ∈ c.formula.leaves, ∀ sig,
    cs.signatures.lookup v.getId = some sig → v.accepts digest.bytes sig = true) :
    ∃ b, cs.verifyCond digest c = .ok b := by
  induction c using Condition.rec'
  case verifier v =>
    cases hl : cs.signatures.lookup v.getId
    case none     => exact ⟨false, by simp [verifyCond, hl]⟩
    case some sig =>
      have ha := h v (by simp [Condition.formula, Formula.leaves]) sig hl
      exact ⟨true, by simp [verifyCond, hl, Verifier.verify_eq_ok.mpr ha]⟩
  case badge hi => exact hi h
  case nofT thr conditions hi =>
    simp only [Condition.formula, Formula.leaves, Condition.formulas_eq_map,
      Formula.mem_leavesAll, List.mem_map] at h
    have hi : ∀ c ∈ conditions, ∃ b, cs.verifyCond digest c = .ok b := fun c hm =>
      hi c hm fun v hv => h v ⟨_, ⟨c, hm, rfl⟩, hv⟩
    obtain ⟨m, hm⟩ := verifyConds_ok 0 hi
    exact ⟨_, by simp only [verifyCond, hm]; rfl⟩
  all_goals exact ⟨_, rfl⟩

-- The signatures of honest signers verify if the signers fulfil the condition.
theorem MadeBy.verifyDigest (h : cs.MadeBy digest signers) (hc : Ed25519.Correct ‹_›)
    (hs : cs.condition.SignedBy signers) : cs.verifyDigest digest = .ok true := by
  have hsigned (v : Verifier) (hv : v ∈ cs.condition.formula.leaves) :=
    h.signed_eq hc (hs.noCollision v hv)
  have ha : ∀ v ∈ cs.condition.formula.leaves, ∀ sig, cs.signatures.lookup v.getId = some sig →
      v.accepts digest.bytes sig = true := by
    intro v hv sig hl
    obtain ⟨s, hm, hid, _⟩ := h.made _ _ hl
    have hsv := hsigned v hv
    rw [decide_eq_true (List.mem_map.mpr ⟨s, hm, hs.noCollision v hv s hm hid⟩)] at hsv
    simpa [signed, hl] using hsv
  obtain ⟨b, hb⟩ := verifyCond_ok ha
  have he := verifyCond_eq_ok hb
  rw [Formula.eval_congr hsigned, hs.satisfy] at he
  exact he ▸ hb

end ConditionSignature
