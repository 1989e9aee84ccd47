import Fledger.Crypto.Signer

-- Simple stand-ins for the cryptographic crates, by which the model can be evaluated.

-- A rolling checksum.
abbrev Sha256.rolling : Sha256 where
  sha256 bs := {
    bytes        := Bytes.be 32 <| bs.foldl (fun n b => (n * 257 + b.toNat + 1) % (2 ^ 256 - 189)) 0
    length_bytes := Bytes.be_length 32 _
  }

namespace Ed25519

-- The signature contains the key and the message.
def plainSignature (key : U256) (msg : Bytes) : Bytes :=
  (key.bytes ++ msg ++ List.replicate 64 0).take 64

theorem plainSignature_length (key : U256) (msg : Bytes) :
    (plainSignature key msg).length = 64 := by
  simp only [plainSignature, List.length_take, List.length_append, List.length_replicate]
  omega

abbrev plain : Ed25519 where
  verifyingKey key         := key
  sign key msg             := ⟨plainSignature key msg, plainSignature_length key msg⟩
  verifyStrict key msg sig := sig == plainSignature key msg

theorem plain_correct : plain.Correct :=
  fun _ _ => beq_self_eq_true _

end Ed25519
