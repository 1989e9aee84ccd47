import Fledger.Flo.Integrity

section Framing

variable [target : Target]

-- `to_varint`, with as many bytes as an `usize` has.
def usizeVarint (i : Nat) : Bytes :=
  if i < 0x80 then [UInt8.ofNat i]
  else
    let out := (Bytes.be usizeBytes i).dropWhile (· == 0)
    (UInt8.ofNat out.length ||| 0x80) :: out

def usizeDataInput (data : Bytes) : Bytes :=
  usizeVarint data.length ++ data

def usizeDomainPartsInput (domain : String) (parts : List Bytes) : Bytes :=
  usizeDataInput (strBytes domain) ++ usizeVarint parts.length ++ parts.flatMap usizeDataInput

theorem usizeVarint_eq {i : Nat} (h : i < 256 ^ usizeBytes) : usizeVarint i = toVarint i := by
  have hb : (Bytes.be usizeBytes i).dropWhile (· == 0) = (Bytes.be 8 i).dropWhile (· == 0) := by
    cases target
    case wasm32   => exact (Bytes.dropWhile_zero_be h 4).symm
    case native64 => rfl
  rw [usizeVarint, toVarint, hb]

theorem usizeDataInput_eq {data : Bytes} (h : data.length < 256 ^ usizeBytes) :
    usizeDataInput data = dataInput data := by
  rw [usizeDataInput, usizeVarint_eq h, dataInput]

-- The framing of what is hashed is the same on all targets, for everything that is in memory.
theorem usizeDomainPartsInput_eq {domain : String} {parts : List Bytes}
    (hd : (strBytes domain).length < 256 ^ usizeBytes) (hp : parts.length < 256 ^ usizeBytes)
    (hs : ∀ part ∈ parts, part.length < 256 ^ usizeBytes) :
    usizeDomainPartsInput domain parts = domainPartsInput domain parts := by
  have hf : parts.flatMap usizeDataInput = parts.flatMap dataInput :=
    List.flatMap_congr fun part hm => usizeDataInput_eq (hs part hm)
  rw [usizeDomainPartsInput, domainPartsInput, hf, usizeVarint_eq hp, usizeDataInput_eq hd]

end Framing

namespace Flo

-- What two nodes compute of a flo, to agree on it.
structure Digests where
  condGenesis : U256
  condUpdate  : FloID → UInt32 → ConditionLink → U256
  data        : U256
  floId       : FloID
  verify      : Result Bool

section Theory

variable [Sha256] [Ed25519]

def digests [Target] (f : Flo) : Digests where
  condGenesis := f.digestCondGenesis
  condUpdate  := digestCondUpdate
  data        := f.digestData
  floId       := f.floId
  verify      := f.verify

def digestsOn (f : Flo) (target : Target) : Digests :=
  f.digests

def PlatformIndependent (f : Flo) : Prop :=
  f.digestsOn .wasm32 = f.digestsOn .native64

def dataInputOn (f : Flo) (target : Target) : Bytes :=
  domainPartsInput "flmodules::flo::data" f.dataParts

-- The hash does not collide on what the two targets hash for the data.
def NoTargetCollision (f : Flo) : Prop :=
  Sha256.sha256 (f.dataInputOn .wasm32) = Sha256.sha256 (f.dataInputOn .native64) →
    f.dataInputOn .wasm32 = f.dataInputOn .native64

variable {f : Flo}

omit [Ed25519] in
-- The number of updates is hashed as an `usize`: with four bytes, or with eight.
theorem dataInputOn_ne : f.dataInputOn .wasm32 ≠ f.dataInputOn .native64 := by
  intro h
  have hl := congrArg List.length h
  simp only [dataInputOn, dataParts, domainPartsInput, dataInput, usizeBytes, List.length_append,
    List.flatMap_cons, List.flatMap_nil, List.length_cons, List.length_nil, Bytes.le_length] at hl
  have hv : (toVarint 4).length = (toVarint 8).length := by decide
  rw [hv] at hl
  omega

theorem verifyDigest_of_verify {target : Target} (h : (f.digestsOn target).verify = .ok true) :
    f.dataSignature.verifyDigest (f.digestsOn target).data = .ok true :=
  (verify_eq_ok.mp h).right.data.verifyDigest

theorem digestsOn_ne (hc : f.NoTargetCollision) :
    (f.digestsOn .wasm32).data ≠ (f.digestsOn .native64).data :=
  fun h => dataInputOn_ne <| hc h

-- No flo has the same digests on both targets. If its data are signed by somebody, then it does not
-- verify on the other target.
theorem not_platformIndependent (f : Flo) (hc : f.NoTargetCollision) :
    ¬ f.PlatformIndependent ∧
    (Ed25519.Binding ‹_› → f.dataSignature.NeedsSignature →
      ¬ ((f.digestsOn .wasm32).verify = .ok true ∧ (f.digestsOn .native64).verify = .ok true)) := by
  constructor
  case left  => exact fun h => digestsOn_ne hc <| congrArg Digests.data h
  case right =>
    intro hb hn ⟨hw, hv⟩
    apply digestsOn_ne hc
    exact ConditionSignature.digest_eq hb hn (verifyDigest_of_verify hw) (verifyDigest_of_verify hv)

end Theory

section Concrete

attribute [local instance] Sha256.rolling Ed25519.plain

theorem not_platformIndependent_signed : ¬ signed.PlatformIndependent ∧
    ¬ ((signed.digestsOn .wasm32).verify = .ok true ∧
      (signed.digestsOn .native64).verify = .ok true) := by
  have hc : signed.NoTargetCollision := by
    unfold NoTargetCollision
    decide +kernel
  have h := not_platformIndependent signed hc
  exact ⟨h.left, h.right Ed25519.plain_binding rfl⟩

-- What is signed on a native node does not verify in a browser.
theorem signed_depends_on_target : ¬ signed.PlatformIndependent ∧
    (signed.digestsOn .native64).verify = .ok true ∧
    (signed.digestsOn .wasm32).verify ≠ .ok true := by
  have hd : (signed.digestsOn .wasm32).data ≠ (signed.digestsOn .native64).data := by
    decide +kernel
  exact ⟨fun h => hd <| congrArg Digests.data h, by decide +kernel⟩

end Concrete

end Flo
