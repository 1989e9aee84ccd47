import Fledger.Arch.Nodeids

-- `PublicKey::verify`, from the crate `ed25519_compact`.
class Ed25519Compact where
  verify : Bytes → Bytes → Bytes → Bool

namespace Modules

-- The bits of the capabilities which exist.
def all : UInt32 :=
  0xff

def webproxyRequests : UInt32 :=
  0x20

def contains (bits other : UInt32) : Bool :=
  bits &&& other = other

-- `from_bits(bits).unwrap_or(all)`.
def ofBits (bits : UInt32) : UInt32 :=
  if bits &&& all = bits then bits else all

end Modules

structure NodeInfo where
  name    : String
  client  : String
  pubkey  : Bytes
  modules : UInt32
  id      : Option NodeID
deriving DecidableEq

structure NodeInfoV2 where
  name    : String
  client  : String
  pubkey  : Bytes
  modules : UInt32
deriving DecidableEq

structure NodeInfoV3 where
  name    : String
  client  : String
  pubkey  : Bytes
  modules : UInt32
deriving DecidableEq

-- The versions of `NodeInfo` which are read. An id is never written or read.
inductive NodeInfoVersion
  | v1
  | v2 (old : NodeInfoV2)
  | v3 (latest : NodeInfoV3)
deriving DecidableEq

namespace NodeInfo

-- The conversion from the first version panics.
def fromVersion : NodeInfoVersion → Option NodeInfo
  | .v1        => none
  | .v2 old    => some { old with modules := Modules.ofBits old.modules, id := none }
  | .v3 latest => some { latest with id := none }

-- A key of another length panics.
def getId (info : NodeInfo) : Option U256 :=
  match info.id with
  | some id => some id
  | none    => if h : info.pubkey.length = 32 then some ⟨info.pubkey, h⟩ else none

-- A key of another length panics.
def verify [Ed25519Compact] (info : NodeInfo) (msg sigBytes : Bytes) : Option Bool :=
  if info.pubkey.length ≠ 32 then none
  else if sigBytes.length ≠ 64 then some false
  else some (Ed25519Compact.verify info.pubkey msg sigBytes)

theorem id_of_fromVersion {version : NodeInfoVersion} {info : NodeInfo}
    (h : fromVersion version = some info) : info.id = none := by
  cases version <;> cases h <;> rfl

-- The id is the public key.
theorem getId_of_fromVersion {version : NodeInfoVersion} {info : NodeInfo} {id : U256}
    (h : fromVersion version = some info) (hi : info.getId = some id) : info.pubkey = id.bytes := by
  simp only [getId, id_of_fromVersion h] at hi
  split at hi <;> cases hi
  rfl

end NodeInfo
