import Fledger.Flo.Flo

structure RealmConfig where
  maxSpace   : Nat
  maxFloSize : UInt32
deriving DecidableEq

structure Realm where
  name     : String
  config   : RealmConfig
  services : HashMap String FloID

structure FloWrapper (α : Type) where
  flo    : Flo
  object : α

abbrev FloRealm := FloWrapper Realm

def FloWrapper.cache {α : Type} (fw : FloWrapper α) : α :=
  fw.object

def Realm.getConfig (realm : Realm) : RealmConfig :=
  realm.config

structure GlobalID where
  realmId : RealmID
  floId   : FloID
deriving DecidableEq

def Flo.globalId [Sha256] (f : Flo) : GlobalID where
  realmId := f.realm
  floId   := f.floId
