import Fledger.DhtStorage.Messages

-- `type_name`.
class FloType (α : Type) where
  floType : String

-- `rmp_serde::from_slice`.
class FromRmpBytes (α : Type) where
  fromRmpBytes : Bytes → Option α

structure BadgeCond where
  cond : ConditionLink

instance : FloType Verifier where
  floType := "flcrypto::signer::Verifier"

instance : FloType BadgeCond where
  floType := "flmodules::flo::crypto::BadgeCond"

instance : FloType Realm where
  floType := "flmodules::flo::realm::Realm"

instance [RealmReader] : FromRmpBytes Realm where
  fromRmpBytes := RealmReader.fromRmpBytes

-- A newtype is written as what it wraps.
instance : Serialize BadgeCond where
  toValue b := Serialize.toValue b.cond

abbrev FloVerifier := FloWrapper Verifier

abbrev FloBadge := FloWrapper BadgeCond

namespace FloWrapper

variable {α : Type} [FloType α] [FromRmpBytes α]

-- `TryFrom<Flo>`.
def tryFrom (flo : Flo) : Except FloError (FloWrapper α) :=
  let floType := FloType.floType α
  if flo.floType ≠ floType then throw (.wrongContent floType flo.floType)
  else
    match FromRmpBytes.fromRmpBytes flo.data with
    | some object => return { flo, object }
    | none        => throw (.deserialization floType)

theorem tryFrom_realm [RealmReader] (flo : Flo) : tryFrom flo = FloRealm.tryFrom flo := by
  have h : FromRmpBytes.fromRmpBytes flo.data = RealmReader.fromRmpBytes flo.data := rfl
  rw [tryFrom, FloRealm.tryFrom, h]
  cases RealmReader.fromRmpBytes flo.data <;> rfl

theorem tryFrom_flo {flo : Flo} {fw : FloWrapper α} (h : (tryFrom flo).toOption = some fw) :
    fw.flo = flo := by
  rw [tryFrom] at h
  split at h
  case isTrue  => cases h
  case isFalse =>
    split at h
    case h_1 => cases h; rfl
    case h_2 => cases h

end FloWrapper

def FloBadge.badgeLink [Sha256] (fw : FloBadge) : BadgeLink where
  id        := fw.flo.floId
  version   := fw.flo.version
  condition := fw.cache.cond
