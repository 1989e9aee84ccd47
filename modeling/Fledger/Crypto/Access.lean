import Fledger.Crypto.Signer
import Fledger.Lib.HashMap
import Fledger.Lib.Outcome
import Fledger.Lib.Threshold

abbrev BadgeID := U256

inductive VersionSpec (α : Type)
  | minimal (id : α) (version : UInt32)
  | exact (id : α) (version : UInt32)
  | maximal (id : α) (version : UInt32)
deriving DecidableEq

inductive ConditionLink
  | verifier (id : KeyPairID)
  | badge (spec : VersionSpec BadgeID)
  | nofT (thr : UInt32) (links : List ConditionLink)
  | fail
  | pass

-- The fields of `Badge` stand next to the version it is required to have.
inductive Condition
  | verifier (verifier : Verifier)
  | badge (spec : VersionSpec BadgeID) (id : BadgeID) (version : UInt32) (condition : Condition)
  | nofT (thr : UInt32) (conditions : List Condition)
  | notAvailable
  | fail
  | pass

structure BadgeLink where
  id        : BadgeID
  version   : UInt32
  condition : ConditionLink

structure ConditionSignature where
  condition  : Condition
  signatures : HashMap KeyPairID Signature

namespace VersionSpec

variable {α : Type}

def getId : VersionSpec α → α
  | minimal id _ | exact id _ | maximal id _ => id

def accepts (version : UInt32) : VersionSpec α → Bool
  | minimal _ v => v ≤ version
  | exact _ v   => v == version
  | maximal _ v => v ≥ version

end VersionSpec

def BadgeLink.fitsVersion (b : BadgeLink) (ver : VersionSpec BadgeID) : Bool :=
  ver.getId == b.id && ver.accepts b.version

section Serialize

open MsgPack

instance {α : Type} [Serialize α] : Serialize (VersionSpec α) where
  toValue
    | .minimal id v => variant "Minimal" (.arr [Serialize.toValue id, Serialize.toValue v])
    | .exact id v   => variant "Exact" (.arr [Serialize.toValue id, Serialize.toValue v])
    | .maximal id v => variant "Maximal" (.arr [Serialize.toValue id, Serialize.toValue v])

mutual

def ConditionLink.toValue : ConditionLink → Value
  | verifier id    => variant "Verifier" (Serialize.toValue id)
  | badge spec     => variant "Badge" (Serialize.toValue spec)
  | nofT thr links => variant "NofT" (.arr [Serialize.toValue thr, .arr (toValues links)])
  | fail           => unitVariant "Fail"
  | pass           => unitVariant "Pass"

def ConditionLink.toValues : List ConditionLink → List Value
  | []            => []
  | link :: links => link.toValue :: toValues links

end

mutual

def Condition.toValue : Condition → Value
  | verifier v          => variant "Verifier" (Serialize.toValue v)
  | badge spec id ver c =>
    variant "Badge" (.arr [Serialize.toValue spec,
      .arr [Serialize.toValue id, Serialize.toValue ver, c.toValue]])
  | nofT thr conditions => variant "NofT" (.arr [Serialize.toValue thr, .arr (toValues conditions)])
  | notAvailable        => unitVariant "NotAvailable"
  | fail                => unitVariant "Fail"
  | pass                => unitVariant "Pass"

def Condition.toValues : List Condition → List Value
  | []      => []
  | c :: cs => c.toValue :: toValues cs

end

instance : Serialize ConditionLink where
  toValue := ConditionLink.toValue

instance : Serialize ConditionSignature where
  toValue cs :=
    .arr [cs.condition.toValue,
      .map (cs.signatures.pairs.map fun (id, sig) => (Serialize.toValue id, .str (base64 sig)))]

end Serialize

-- `gb` and `gv` are what is found for a badge or a verifier. Each call needs some of the fuel.
def ConditionLink.toCondition (gb : VersionSpec BadgeID → Option BadgeLink)
    (gv : KeyPairID → Option Verifier) : Nat → ConditionLink → Option Condition
  | 0, _           => none
  | fuel + 1, link =>
    match link with
    | verifier ver  => some ((gv ver).elim .notAvailable .verifier)
    | badge version =>
      match gb version with
      | some b => do
        some (.badge version b.id b.version (← b.condition.toCondition gb gv fuel))
      | none   => some .notAvailable
    | nofT thr vec  => do some (.nofT thr (← vec.mapM (toCondition gb gv fuel)))
    | pass          => some .pass
    | fail          => some .fail

namespace Condition

variable [Sha256]

mutual

def toLink : Condition → Result ConditionLink
  | verifier v          => return .verifier v.getId
  | badge spec _ _ _    => return .badge spec
  | nofT thr conditions => return .nofT thr (← toLinks conditions)
  | notAvailable        => throw .panic
  | pass                => return .pass
  | fail                => return .fail

def toLinks : List Condition → Result (List ConditionLink)
  | []      => return []
  | c :: cs => return (← c.toLink) :: (← toLinks cs)

end

-- `equal_link` for a link to a badge. The condition of the badge is compared to the same link.
def equalBadge (spec : VersionSpec BadgeID) : Condition → Result Bool
  | badge verSpec id version condition => do
    let badgeLink : BadgeLink := { id, version, condition := ← condition.toLink }
    if badgeLink.fitsVersion spec then
      return (← condition.equalBadge spec) && spec == verSpec
    else
      return false
  | _ => return false

mutual

def equalLink (c : Condition) : ConditionLink → Result Bool
  | .verifier id =>
    match c with
    | verifier v => return v.getId == id
    | _          => return false
  | .badge spec => c.equalBadge spec
  | .nofT _ links => c.equalLinks links
  | .pass => return (c matches pass)
  | .fail => return (c matches fail)

def equalLinks (c : Condition) : List ConditionLink → Result Bool
  | []            => return true
  | link :: links => do if ← c.equalLink link then c.equalLinks links else return false

end

mutual

def hasVerifier (id : KeyPairID) : Condition → Bool
  | verifier v        => v.getId == id
  | badge _ _ _ c     => c.hasVerifier id
  | nofT _ conditions => hasVerifierAny id conditions
  | notAvailable      => false
  | pass              => true
  | fail              => false

def hasVerifierAny (id : KeyPairID) : List Condition → Bool
  | []      => false
  | c :: cs => c.hasVerifier id || hasVerifierAny id cs

end

mutual

-- More than one signer is still to be done.
def canSign (vids : List KeyPairID) (c : Condition) : Result Bool :=
  if vids.length > 1 then throw .panic
  else
    match vids.head?, c with
    | some vid, verifier v            => return v.getId == vid
    | some vid, badge _ _ _ condition => condition.canSign [vid]
    | some vid, nofT nbr conditions   => return (← canSignAny vid conditions) && nbr == 1
    | some _, notAvailable            => return false
    | some _, pass                    => return true
    | some _, fail                    => return false
    | none, c                         => return (c matches pass)

def canSignAny (vid : KeyPairID) : List Condition → Result Bool
  | []      => return false
  | c :: cs => do if ← c.canSign [vid] then return true else canSignAny vid cs

end

def canSigners [Ed25519] (c : Condition) (vids : List Signer) : Result Bool :=
  c.canSign (vids.map Signer.getId)

end Condition

namespace ConditionSignature

variable [Sha256] [Ed25519]

def new (condition : Condition) : ConditionSignature where
  condition  := condition
  signatures := ∅

def empty : ConditionSignature where
  condition  := .notAvailable
  signatures := ∅

def signDigest (cs : ConditionSignature) (sig : Signer) (digest : U256) :
    Result ConditionSignature := do
  if !cs.condition.hasVerifier sig.getId then throw (.error .noSuchSigner)
  return { cs with signatures := cs.signatures.insert sig.getId (← sig.sign digest.bytes) }

-- Also the loops of `new_signer` and `sign_data`.
def signersDigest (cs : ConditionSignature) (signers : List Signer) (digest : U256) :
    Result ConditionSignature :=
  signers.foldlM (fun cs sig => cs.signDigest sig digest) cs

mutual

def verifyCond (cs : ConditionSignature) (digest : U256) : Condition → Result Bool
  | .verifier v => do
    match cs.signatures.lookup v.getId with
    | some sig =>
      v.verify digest.bytes sig
      return true
    | none => return false
  | .badge _ _ _ condition => cs.verifyCond digest condition
  | .nofT t conditions => return (← cs.verifyConds digest 0 conditions) ≥ t.toNat
  | .notAvailable => return false
  | .pass => return true
  | .fail => return false

def verifyConds (cs : ConditionSignature) (digest : U256) (correct : Nat) :
    List Condition → Result Nat
  | []                 => return correct
  | cond :: conditions => do
    if ← cs.verifyCond digest cond then
      cs.verifyConds digest (correct + 1) conditions
    else
      cs.verifyConds digest correct conditions

end

def verifyDigest (cs : ConditionSignature) (digest : U256) : Result Bool :=
  cs.verifyCond digest cs.condition

end ConditionSignature
