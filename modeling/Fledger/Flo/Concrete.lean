import Fledger.Crypto.Concrete
import Fledger.Flo.Realm

-- Flos by which the storage can be evaluated.

namespace Flo

-- A flo nobody can update, which is told apart from others by its nonce.
def sample (realm : RealmID) (nonce : UInt8) (length : Nat) : Flo where
  realm         := realm
  floType       := "sample"
  floConfig     := {}
  data          := List.replicate length 1
  dataVersion   := 0
  dataSignature := .new .fail
  nonce         := .ofPrefix [nonce]
  condGenesis   := { cond := .fail, signatures := .new .fail }
  condUpdate    := []

-- The flo of a realm, with as much content.
def sampleRealm [Sha256] (maxSpace length : Nat) : FloRealm where
  flo    := { sample .zero 0 length with realm := (sample .zero 0 length).floId }
  object := {
    name     := "sample"
    config   := { maxSpace, maxFloSize := 0 }
    services := ∅
  }

end Flo
