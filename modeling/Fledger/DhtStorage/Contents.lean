import Fledger.DhtStorage.Messages

-- The contents of a value are what it is besides the order in which its hash maps happen to be
-- iterated.

def HashMap.contents {K V W : Type*} [DecidableEq K] (f : V → W) (m : HashMap K V) (k : K) :
    Option W :=
  (m.lookup k).map f

theorem HashMap.exists_of_contents {K V W : Type*} [DecidableEq K] {f : V → W} {m m' : HashMap K V}
    {k : K} {v' : V} (h : m'.contents f = m.contents f) (hl : m'.lookup k = some v') :
    ∃ v, m.lookup k = some v ∧ f v = f v' := by
  refine Option.map_eq_some_iff.mp ?_
  rw [← Option.map_some, ← hl]
  exact congrFun h.symm k

abbrev ConditionSignature.Contents :=
  Condition × (KeyPairID → Option Signature)

def ConditionSignature.contents (cs : ConditionSignature) : Contents :=
  (cs.condition, cs.signatures.contents id)

abbrev CondVersion.Contents :=
  ConditionLink × ConditionSignature.Contents

def CondVersion.contents (cv : CondVersion) : Contents :=
  (cv.cond, cv.signatures.contents)

namespace Flo

structure Contents where
  realm         : RealmID
  floType       : String
  floConfig     : FloConfig
  data          : Bytes
  dataVersion   : UInt32
  dataSignature : ConditionSignature.Contents
  nonce         : U256
  condGenesis   : CondVersion.Contents
  condUpdate    : List CondVersion.Contents

def contents (f : Flo) : Contents where
  realm         := f.realm
  floType       := f.floType
  floConfig     := f.floConfig
  data          := f.data
  dataVersion   := f.dataVersion
  dataSignature := f.dataSignature.contents
  nonce         := f.nonce
  condGenesis   := f.condGenesis.contents
  condUpdate    := f.condUpdate.map CondVersion.contents

variable {f f' : Flo}

theorem realm_of_contents (h : f'.contents = f.contents) : f'.realm = f.realm :=
  congrArg Contents.realm h

-- The signatures are not part of the id.
theorem floId_of_contents [Sha256] (h : f'.contents = f.contents) : f'.floId = f.floId := by
  have ht : f'.floType = f.floType := congrArg Contents.floType h
  have hf : f'.floConfig = f.floConfig := congrArg Contents.floConfig h
  have hn : f'.nonce = f.nonce := congrArg Contents.nonce h
  have hg : f'.condGenesis.cond = f.condGenesis.cond := congrArg (·.condGenesis.1) h
  rw [floId, digestCondGenesis, ht, hf, hn, hg, floId, digestCondGenesis]

end Flo

abbrev FloCuckoo.Contents :=
  Flo.Contents × List FloID

def FloCuckoo.contents (fc : FloCuckoo) : Contents :=
  (fc.1.contents, fc.2)

abbrev FloStorage.Contents :=
  FloCuckoo.Contents × Int × Int × Int × Int

def FloStorage.contents (fs : FloStorage) : Contents :=
  (FloCuckoo.contents (fs.flo, fs.cuckoos), fs.timeCreate, fs.timeUpdate, fs.timeRead, fs.reads)

namespace RealmStorage

structure Contents where
  dhtConfig   : DHTConfig
  realmConfig : RealmConfig
  realmId     : RealmID
  root        : U256
  flos        : FloID → Option FloStorage.Contents
  distances   : Nat → Option (List FloID)
  size        : Nat

def contents (s : RealmStorage) : Contents where
  dhtConfig   := s.dhtConfig
  realmConfig := s.realmConfig
  realmId     := s.realmId
  root        := s.root
  flos        := s.flos.contents FloStorage.contents
  distances   := s.distances.contents id
  size        := s.size

abbrev Rereads [Yaml (HashMap RealmID RealmStorage)] : Prop :=
  Yaml.Rereads fun realms : HashMap RealmID RealmStorage => realms.contents contents

end RealmStorage

def MessageClosest.contents : MessageClosest → Flo.Contents ⊕ MessageClosest
  | .storeFlo flo => .inl flo.contents
  | msg           => .inr msg

def MessageDest.contents : MessageDest → (FloCuckoo.Contents × Option U256) ⊕ MessageDest
  | .floValue fc requestId => .inl (FloCuckoo.contents fc, requestId)
  | msg                    => .inr msg

def MessageNeighbour.contents : MessageNeighbour → List FloCuckoo.Contents ⊕ MessageNeighbour
  | .flos fcs => .inl (fcs.map FloCuckoo.contents)
  | msg       => .inr msg
