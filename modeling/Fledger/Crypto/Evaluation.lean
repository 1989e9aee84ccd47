import Fledger.Crypto.Concrete
import Fledger.Crypto.Satisfies

namespace ConditionSignature

section

variable [Sha256] [Ed25519] (cs : ConditionSignature) (digest : U256)

-- What `verify_cond` is for.
def Computes (c : Condition) : Prop :=
  cs.verifyCond digest c = .ok true ↔ c.formula.eval (cs.signed digest) = true

-- There is a signature of the verifier, but it is not valid.
def Rejected (v : Verifier) : Prop :=
  ∃ sig, cs.signatures.lookup v.getId = some sig ∧ v.accepts digest.bytes sig = false

omit [Sha256] [Ed25519] in
def add (id : KeyPairID) (sig : Signature) : ConditionSignature :=
  { cs with signatures := cs.signatures.insert id sig }

variable {cs digest} {c : Condition} {id : KeyPairID} {sig : Signature}

theorem verifyConds_isOk {n : Nat} {conditions : List Condition} :
    (∃ m, cs.verifyConds digest n conditions = .ok m) ↔
      ∀ c ∈ conditions, ∃ b, cs.verifyCond digest c = .ok b := by
  induction conditions generalizing n
  case nil                  => simp [verifyConds]
  case cons c conditions hi =>
    rw [List.forall_mem_cons]
    simp only [verifyConds, Outcome.bind_eq_ok]
    constructor
    case mp =>
      rintro ⟨m, b, hb, h⟩
      cases b
      case false => exact ⟨⟨false, hb⟩, hi.mp ⟨m, h⟩⟩
      case true  => exact ⟨⟨true, hb⟩, hi.mp ⟨m, h⟩⟩
    case mpr =>
      rintro ⟨⟨b, hb⟩, h⟩
      obtain ⟨m, hm⟩ := hi (n := if b then n + 1 else n) |>.mpr h
      refine ⟨m, b, hb, ?_⟩
      cases b <;> exact hm

-- All verifiers are asked, and one which rejects its signature is enough for a failure.
theorem verifyCond_isOk :
    (∃ b, cs.verifyCond digest c = .ok b) ↔ ∀ v ∈ c.formula.leaves, ¬cs.Rejected digest v := by
  induction c using Condition.rec'
  case verifier v =>
    simp only [Condition.formula, Formula.leaves, List.mem_singleton, forall_eq, Rejected,
      verifyCond]
    cases hl : cs.signatures.lookup v.getId
    case none     => simp
    case some sig =>
      cases ha : v.accepts digest.bytes sig
      case true  => simp [Verifier.verify_eq_ok.mpr ha, ha]
      case false =>
        have hv : v.verify digest.bytes sig ≠ .ok () := fun h =>
          Bool.false_ne_true <| ha.symm.trans <| Verifier.verify_eq_ok.mp h
        simp [hv, ha]
  case badge hi            => simpa only [verifyCond, Condition.formula] using hi
  case nofT t conditions hi =>
    have hn : (∃ b, cs.verifyCond digest (.nofT t conditions) = .ok b) ↔
        ∃ m, cs.verifyConds digest 0 conditions = .ok m := by
      rw [verifyCond]
      constructor
      case mp =>
        rintro ⟨b, hb⟩
        obtain ⟨m, hm, _⟩ := Outcome.bind_eq_ok.mp hb
        exact ⟨m, hm⟩
      case mpr =>
        rintro ⟨m, hm⟩
        exact ⟨_, Outcome.bind_eq_ok.mpr ⟨m, hm, rfl⟩⟩
    rw [hn, verifyConds_isOk, Condition.formula, Formula.leaves, Condition.formulas_eq_map]
    constructor
    case mp =>
      intro h v hv
      obtain ⟨f, hf, hv⟩ := Formula.mem_leavesAll.mp hv
      obtain ⟨c, hc, rfl⟩ := List.mem_map.mp hf
      exact hi c hc |>.mp (h c hc) v hv
    case mpr =>
      intro h c hc
      refine hi c hc |>.mpr fun v hv => h v <| Formula.mem_leavesAll.mpr ?_
      exact ⟨c.formula, List.mem_map_of_mem hc, hv⟩
  all_goals simp [verifyCond, Condition.formula, Formula.leaves]

theorem verifyCond_eq_true : cs.verifyCond digest c = .ok true ↔
    c.formula.eval (cs.signed digest) = true ∧ ∀ v ∈ c.formula.leaves, ¬cs.Rejected digest v := by
  constructor
  case mp  => exact fun h => ⟨verifyCond_eq_ok h, verifyCond_isOk.mp ⟨true, h⟩⟩
  case mpr =>
    rintro ⟨hf, hr⟩
    obtain ⟨b, hb⟩ := verifyCond_isOk.mpr hr
    rw [hb, ← verifyCond_eq_ok hb, hf]

omit [Sha256] [Ed25519] in
theorem lookup_add (i : KeyPairID) :
    (cs.add id sig).signatures.lookup i = if i = id then some sig else cs.signatures.lookup i :=
  HashMap.lookup_insert_eq i id sig

theorem signed_add (hn : cs.signatures.lookup id = none) {v : Verifier}
    (h : cs.signed digest v = true) : (cs.add id sig).signed digest v = true := by
  rw [signed] at h ⊢
  rw [lookup_add]
  split
  case isTrue hv  =>
    rw [hv, hn] at h
    cases h
  case isFalse hv => exact h

theorem rejected_add {v : Verifier} : (cs.add id sig).Rejected digest v ↔
    if v.getId = id then v.accepts digest.bytes sig = false else cs.Rejected digest v := by
  rw [Rejected, lookup_add]
  split
  case isTrue hv  => simp
  case isFalse hv => rfl

-- `verify_cond` computes the formula, if and only if the formula is false, or none of the verifiers
-- rejects its signature. So a signature which is added can only turn an acceptance into a
-- rejection if it is not valid.
theorem computes_iff (cs : ConditionSignature) (digest : U256) (c : Condition) :
    (cs.Computes digest c ↔ c.formula.eval (cs.signed digest) = false ∨
      ∀ v ∈ c.formula.leaves, ¬cs.Rejected digest v) ∧
    ∀ id sig, cs.signatures.lookup id = none → cs.verifyCond digest c = .ok true →
      ((cs.add id sig).verifyCond digest c = .ok true ↔
        ∀ v ∈ c.formula.leaves, v.getId = id → v.accepts digest.bytes sig = true) := by
  constructor
  case left =>
    rw [Computes, verifyCond_eq_true]
    cases c.formula.eval (cs.signed digest) <;> simp
  case right =>
    intro id sig hn hv
    obtain ⟨hf, hr⟩ := verifyCond_eq_true.mp hv
    have hf : c.formula.eval ((cs.add id sig).signed digest) = true :=
      Formula.eval_mono (fun v => signed_add hn) hf
    rw [verifyCond_eq_true, and_iff_right hf]
    refine forall₂_congr fun v hm => ?_
    rw [rejected_add]
    split
    case isTrue hi  => simp [hi]
    case isFalse hi => simp [hi, hr v hm]

end

section

attribute [local instance] Sha256.rolling Ed25519.plain

def alice : Signer :=
  .ed25519 ⟨.zero⟩

def bob : Signer :=
  .ed25519 ⟨.ofPrefix [1]⟩

def oneOfTwo : Condition :=
  .nofT 1 [.verifier alice.verifier, .verifier bob.verifier]

def aliceSigned : ConditionSignature :=
  (new oneOfTwo).add alice.getId (Ed25519.plainSignature .zero U256.zero.bytes)

-- A signature by nobody, and one which is too short.
def forged : ConditionSignature :=
  aliceSigned.add bob.getId (List.replicate 64 0)

def malformed : ConditionSignature :=
  aliceSigned.add bob.getId []

theorem not_computes :
    aliceSigned.verifyCond .zero oneOfTwo = .ok true ∧
      forged.verifyCond .zero oneOfTwo = .error (.error .signatureMessageMismatch) ∧
      ¬forged.Computes .zero oneOfTwo ∧
      malformed.verifyCond .zero oneOfTwo = .error .panic ∧
      ¬malformed.Computes .zero oneOfTwo := by
  unfold Computes
  decide +kernel

theorem computes_aliceSigned :
    aliceSigned.Computes .zero oneOfTwo ∧
      (forged.verifyCond .zero oneOfTwo = .ok true ↔
        ∀ v ∈ oneOfTwo.formula.leaves, v.getId = bob.getId →
          v.accepts U256.zero.bytes (List.replicate 64 0) = true) := by
  obtain ⟨hc, ha⟩ := computes_iff aliceSigned .zero oneOfTwo
  have hv : aliceSigned.verifyCond .zero oneOfTwo = .ok true := by decide +kernel
  refine ⟨hc.mpr <| .inr <| verifyCond_isOk.mp ⟨true, hv⟩, ?_⟩
  exact ha bob.getId (List.replicate 64 0) (by decide +kernel) hv

end

end ConditionSignature
