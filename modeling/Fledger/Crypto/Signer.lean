import Fledger.Arch.Nodeids

abbrev KeyPairID := U256

abbrev Signature := Bytes

inductive SignerError
  | noSuchSigner
  | signatureMessageMismatch
deriving DecidableEq

-- How a function fails: with an error it returns, or by a panic.
inductive Fault
  | error (e : SignerError)
  | panic
deriving DecidableEq

abbrev Result := Except Fault

abbrev SigningKey := U256

abbrev VerifyingKey := U256

-- `SigningKey` and `VerifyingKey`, from the crate `ed25519_dalek`.
class Ed25519 where
  verifyingKey : SigningKey → VerifyingKey
  sign         : SigningKey → Bytes → { sig : Bytes // sig.length = 64 }
  verifyStrict : VerifyingKey → Bytes → Bytes → Bool

structure SignerEd25519 where
  keypair : SigningKey
deriving DecidableEq

structure VerifierEd25519 where
  verifier : VerifyingKey
deriving DecidableEq

inductive Signer
  | ed25519 (s : SignerEd25519)
deriving DecidableEq

inductive Verifier
  | ed25519 (v : VerifierEd25519)
deriving DecidableEq

section Serialize

open MsgPack

instance : Serialize VerifierEd25519 where
  toValue v := .arr [.str (base64 v.verifier.bytes)]

instance : Serialize Verifier where
  toValue
    | .ed25519 v => variant "Ed25519" (Serialize.toValue v)

end Serialize

section

variable [Ed25519]

def VerifierEd25519.verify (v : VerifierEd25519) (msg : Bytes) (sig : Signature) : Result Unit :=
  if sig.length ≠ 64 then throw .panic
  else if Ed25519.verifyStrict v.verifier msg sig then return ()
  else throw (.error .signatureMessageMismatch)

def Verifier.verify : Verifier → Bytes → Signature → Result Unit
  | .ed25519 v => v.verify

def SignerEd25519.verifier (s : SignerEd25519) : Verifier :=
  .ed25519 ⟨Ed25519.verifyingKey s.keypair⟩

def SignerEd25519.sign (s : SignerEd25519) (msg : Bytes) : Result Signature :=
  return Ed25519.sign s.keypair msg

def Signer.verifier : Signer → Verifier
  | .ed25519 s => s.verifier

def Signer.sign : Signer → Bytes → Result Signature
  | .ed25519 s => s.sign

end

section

variable [Sha256]

def VerifierEd25519.getId (v : VerifierEd25519) : KeyPairID :=
  U256.hashDomainParts "ican.re.fledg.flmodules.crypto.verifier_ed25519" [v.verifier.bytes]

def Verifier.getId : Verifier → KeyPairID
  | .ed25519 v => v.getId

variable [Ed25519]

def SignerEd25519.getId (s : SignerEd25519) : KeyPairID :=
  s.verifier.getId

def Signer.getId : Signer → KeyPairID
  | .ed25519 s => s.getId

theorem Signer.getId_eq (s : Signer) : s.getId = s.verifier.getId := by
  cases s; rfl

end

-- Whether `verify` accepts the signature.
def Verifier.accepts [Ed25519] (v : Verifier) (msg : Bytes) (sig : Signature) : Bool :=
  (v.verify msg sig).isOk

theorem Verifier.verify_eq_ok [Ed25519] {v : Verifier} {msg : Bytes} {sig : Signature} :
    v.verify msg sig = .ok () ↔ v.accepts msg sig = true := by
  cases h : v.verify msg sig <;> simp [accepts, h, Except.isOk, Except.toBool]

-- What is known about honestly made signatures.
def Ed25519.Correct (E : Ed25519) : Prop :=
  ∀ key msg, E.verifyStrict (E.verifyingKey key) msg (E.sign key msg) = true

theorem Signer.sign_accepted [Ed25519] (h : Ed25519.Correct ‹_›) (s : Signer) (msg : Bytes) :
    ∃ sig, s.sign msg = .ok sig ∧ s.verifier.accepts msg sig = true := by
  cases s
  case ed25519 s =>
    refine ⟨_, rfl, ?_⟩
    have hl := (Ed25519.sign s.keypair msg).property
    simp [verifier, SignerEd25519.verifier, Verifier.accepts, Verifier.verify,
      VerifierEd25519.verify, hl, h s.keypair msg, Except.isOk, Except.toBool, pure, Except.pure]
