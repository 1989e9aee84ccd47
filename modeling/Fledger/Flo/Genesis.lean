import Fledger.Arch.Framing
import Fledger.Flo.Flo

open MsgPack

theorem variant_inj {n m : String} {v w : Value} (h : variant n v = variant m w) :
    n = m ∧ v = w := by
  simp only [variant, Value.map.injEq, List.cons.injEq, Prod.mk.injEq, Value.str.injEq,
    and_true] at h
  exact ⟨strBytes_inj h.left, h.right⟩

theorem unitVariant_inj {n m : String} (h : unitVariant n = unitVariant m) : n = m :=
  strBytes_inj <| Value.str.inj h

theorem unitVariant_ne_variant {n m : String} {v : Value} : unitVariant n ≠ variant m v := by
  simp [unitVariant, variant]

theorem variant_fits {n : String} {v : Value} (hn : (strBytes n).length < 0x100000000)
    (hv : v.Fits) : (variant n v).Fits := by
  simp [variant, Value.Fits, Value.FitsMap, Token.Fits, hn, hv]

theorem unitVariant_fits {n : String} (hn : (strBytes n).length < 0x100000000) :
    (unitVariant n).Fits :=
  hn

theorem toValue_uint32_inj {m n : UInt32} (h : Serialize.toValue m = Serialize.toValue n) :
    m = n := by
  simp only [Serialize.toValue, Value.int.injEq, Int.natCast_inj] at h
  exact UInt32.toNat_inj.mp h

theorem toValue_uint32_fits (n : UInt32) : (Serialize.toValue n).Fits := by
  have h := n.toNat_lt
  simp only [Serialize.toValue, Value.Fits, Token.Fits]
  omega

theorem toValue_u256_fits (u : U256) : (Serialize.toValue u).Fits := by
  simp [Serialize.toValue, Value.Fits, Token.Fits, hex_length, u.length_bytes]

namespace VersionSpec

variable {s t : VersionSpec BadgeID}

theorem toValue_inj (h : Serialize.toValue s = Serialize.toValue t) : s = t := by
  cases s <;> cases t <;> have ⟨hn, hv⟩ := variant_inj h <;> simp only [String.reduceEq] at hn
  all_goals
    simp only [Value.arr.injEq, List.cons.injEq, and_true] at hv
    rw [U256.toValue_inj hv.left, toValue_uint32_inj hv.right]

theorem toValue_fits (s : VersionSpec BadgeID) : (Serialize.toValue s).Fits := by
  cases s
  all_goals
    refine variant_fits (by decide) ⟨by simp [Token.Fits], ?_⟩
    exact ⟨toValue_u256_fits _, toValue_uint32_fits _, trivial⟩

end VersionSpec

namespace ConditionLink

mutual

-- No list of the link is longer than what its serialization can express.
def Bounded : ConditionLink → Prop
  | nofT _ links => links.length < 0x100000000 ∧ BoundedAll links
  | _            => True

def BoundedAll : List ConditionLink → Prop
  | []            => True
  | link :: links => link.Bounded ∧ BoundedAll links

end

theorem toValues_length (links : List ConditionLink) : (toValues links).length = links.length := by
  induction links
  case nil => rfl
  case cons hi => simp [toValues, hi]

mutual

theorem toValue_inj {l₁ l₂ : ConditionLink} (h : l₁.toValue = l₂.toValue) : l₁ = l₂ := by
  cases l₁ <;> cases l₂ <;> simp only [toValue, unitVariant_ne_variant,
    unitVariant_ne_variant.symm] at h
  case verifier.verifier => rw [U256.toValue_inj (variant_inj h).right]
  case badge.badge => rw [VersionSpec.toValue_inj (variant_inj h).right]
  case nofT.nofT =>
    have h := (variant_inj h).right
    simp only [Value.arr.injEq, List.cons.injEq, and_true] at h
    rw [toValue_uint32_inj h.left, toValues_inj h.right]
  case fail.fail | pass.pass => rfl
  case fail.pass | pass.fail => simpa using unitVariant_inj h
  all_goals simpa using (variant_inj h).left

theorem toValues_inj {ls₁ ls₂ : List ConditionLink} (h : toValues ls₁ = toValues ls₂) :
    ls₁ = ls₂ := by
  cases ls₁ <;> cases ls₂ <;> simp only [toValues, reduceCtorEq, List.cons.injEq] at h
  case nil.nil => rfl
  case cons.cons => rw [toValue_inj h.left, toValues_inj h.right]

end

mutual

theorem toValue_fits {link : ConditionLink} (h : link.Bounded) : link.toValue.Fits := by
  cases link
  case verifier id   => exact variant_fits (by decide) (toValue_u256_fits id)
  case badge spec    => exact variant_fits (by decide) spec.toValue_fits
  case fail | pass   => exact unitVariant_fits (by decide)
  case nofT thr links =>
    refine variant_fits (by decide) ⟨by simp [Token.Fits], toValue_uint32_fits thr, ⟨?_, ?_⟩, trivial⟩
    case refine_1 => rw [Token.Fits, toValues_length]; exact h.left
    case refine_2 => exact toValues_fits h.right

theorem toValues_fits {links : List ConditionLink} (h : BoundedAll links) :
    Value.FitsArr (toValues links) := by
  cases links
  case nil  => trivial
  case cons => exact ⟨toValue_fits h.left, toValues_fits h.right⟩

end

end ConditionLink

namespace FloConfig

theorem toValue_cuckoo_inj {c d : Cuckoo} (h : Serialize.toValue c = Serialize.toValue d) :
    c = d := by
  cases c <;> cases d <;> simp only [Serialize.toValue, unitVariant_ne_variant,
    unitVariant_ne_variant.symm] at h
  case duration.duration => rw [toValue_uint32_inj (variant_inj h).right]
  case parent.parent => rw [U256.toValue_inj (variant_inj h).right]
  case none.none => rfl
  all_goals simpa using (variant_inj h).left

theorem toValue_inj {c d : FloConfig} (h : Serialize.toValue c = Serialize.toValue d) : c = d := by
  obtain ⟨_, f⟩ := c
  obtain ⟨_, g⟩ := d
  simp only [Serialize.toValue, Value.arr.injEq, List.cons.injEq, and_true] at h
  have hc := toValue_cuckoo_inj h.left
  cases f <;> cases g <;> simp only [Option.elim, reduceCtorEq, Value.str.injEq,
    and_false] at h
  case none.none => rw [hc]
  case some.some => rw [hc, U256.ext (hex_inj h.right)]

theorem toValue_fits (c : FloConfig) : (Serialize.toValue c).Fits := by
  refine ⟨by simp [Token.Fits], ?_, ?_, trivial⟩
  case refine_1 =>
    cases c.cuckoo
    case duration t => exact variant_fits (by decide) (toValue_uint32_fits t)
    case parent id  => exact variant_fits (by decide) (toValue_u256_fits id)
    case none       => exact unitVariant_fits (by decide)
  case refine_2 =>
    cases c.forceId
    case none   => trivial
    case some u => exact toValue_u256_fits u

end FloConfig

namespace Flo

-- What `digest_cond_genesis` hashes.
def genesisParts (f : Flo) : List Bytes :=
  [strBytes f.floType, toRmpBytes f.floConfig, toRmpBytes f.condGenesis.cond, f.nonce.bytes]

-- All lengths are those of values which can be in memory and can be serialized.
structure GenesisFits (f : Flo) : Prop where
  parts : PartsFit f.genesisParts
  cond  : f.condGenesis.cond.Bounded

structure SameGenesis (f g : Flo) : Prop where
  floType   : f.floType = g.floType
  floConfig : f.floConfig = g.floConfig
  nonce     : f.nonce = g.nonce
  cond      : f.condGenesis.cond = g.condGenesis.cond

theorem sameGenesis_of_parts {f g : Flo} (hf : f.GenesisFits) (hg : g.GenesisFits)
    (h : f.genesisParts = g.genesisParts) : f.SameGenesis g := by
  simp only [genesisParts, List.cons.injEq, and_true] at h
  have ⟨ht, hc, hl, hn⟩ := h
  constructor
  case floType   => exact strBytes_inj ht
  case nonce     => exact U256.ext hn
  case floConfig =>
    exact FloConfig.toValue_inj <| Value.encode_inj f.floConfig.toValue_fits
      g.floConfig.toValue_fits hc
  case cond =>
    exact ConditionLink.toValue_inj <| Value.encode_inj (ConditionLink.toValue_fits hf.cond)
      (ConditionLink.toValue_fits hg.cond) hl

theorem partsFit_u256 (u : U256) : PartsFit [u.bytes] := by
  simp [PartsFit, u.length_bytes]

variable [Sha256]

-- Everything that is hashed for the id of a flo.
def idInputs (f : Flo) : List Bytes :=
  [
    domainPartsInput "flmodules::flo::cond_genesis" f.genesisParts,
    domainPartsInput "ican.re.fledg.flmodules.flo.Flo"
      [(f.floConfig.forceId.getD f.digestCondGenesis).bytes]
  ]

-- The hash does not collide on what is hashed for the ids of the two flos.
def NoCollision (f g : Flo) : Prop :=
  ∀ x ∈ f.idInputs, ∀ y ∈ g.idInputs, Sha256.sha256 x = Sha256.sha256 y → x = y

-- A flo without a forced id shares its id with flos of the same genesis, and with those which force
-- the digest of this genesis.
theorem genesis_of_floId_eq {f g : Flo} (hf : f.GenesisFits) (hg : g.GenesisFits)
    (hs : f.NoCollision g) (hfid : f.floConfig.forceId = none) (h : f.floId = g.floId) :
    f.SameGenesis g ∨ g.floConfig.forceId = some f.digestCondGenesis := by
  have hp := hs _ (by simp [idInputs]) _ (by simp [idInputs]) h
  have ⟨_, hd⟩ := domainPartsInput_inj (by decide) (by decide) (partsFit_u256 _) (partsFit_u256 _) hp
  have hd := U256.ext <| List.head_eq_of_cons_eq hd
  rw [hfid, Option.getD_none] at hd
  cases hgid : g.floConfig.forceId
  case some u =>
    rw [hgid, Option.getD_some] at hd
    exact .inr <| congrArg some hd.symm
  case none =>
    rw [hgid, Option.getD_none] at hd
    have hp := hs _ (List.mem_cons_self ..) _ (List.mem_cons_self ..) hd
    have ⟨_, hparts⟩ := domainPartsInput_inj (by decide) (by decide) hf.parts hg.parts hp
    exact .inl <| sameGenesis_of_parts hf hg hparts

end Flo
