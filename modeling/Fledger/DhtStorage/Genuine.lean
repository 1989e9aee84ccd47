import Fledger.DhtRouter.Cargo
import Fledger.DhtStorage.Contents
import Fledger.DhtStorage.Convergence
import Fledger.DhtStorage.Exchange

-- Somebody has handed in a cuckoo of the parent.
def Flo.CuckooIn [Sha256] (F : Flo.Contents → Prop) (rid : RealmID) (parent cuckoo : FloID) :
    Prop :=
  ∃ f : Flo, F f.contents ∧ f.realm = rid ∧ f.floId = cuckoo ∧
    f.floConfig.cuckooParent = some parent

-- The flo has been handed in, and so have all its cuckoos.
structure FloCuckoo.Genuine [Sha256] (F : Flo.Contents → Prop) (fc : FloCuckoo) : Prop where
  flo     : F fc.1.contents
  cuckoos : ∀ c ∈ fc.2, Flo.CuckooIn F fc.1.realm fc.1.floId c

theorem FloCuckoo.Genuine.of_contents [Sha256] {F : Flo.Contents → Prop} {fc fc' : FloCuckoo}
    (h : FloCuckoo.Genuine F fc) (hc : FloCuckoo.contents fc' = FloCuckoo.contents fc) :
    FloCuckoo.Genuine F fc' := by
  obtain ⟨hf, hcs⟩ := Prod.mk.inj hc
  constructor
  case flo     => exact hf ▸ h.flo
  case cuckoos =>
    rw [hcs, Flo.realm_of_contents hf, Flo.floId_of_contents hf]
    exact h.cuckoos

-- An entry of the storage of a realm which has been handed in.
structure FloStorage.Genuine [Sha256] (F : Flo.Contents → Prop) (rid : RealmID) (id : FloID)
    (fs : FloStorage) : Prop where
  realm : fs.flo.realm = rid
  keyed : fs.flo.floId = id
  entry : FloCuckoo.Genuine F (fs.flo, fs.cuckoos)

namespace FloStorage

variable [Sha256] {F : Flo.Contents → Prop} {rid : RealmID} {id cuckoo : FloID} {flo : Flo}
  {fs fs' : FloStorage}

theorem genuine_ofFlo (hf : F flo.contents) (now : Int) :
    (ofFlo now flo).Genuine F flo.realm flo.floId :=
  ⟨rfl, rfl, hf, fun _ hm => absurd hm List.not_mem_nil⟩

theorem Genuine.withCuckoo (h : fs.Genuine F rid id) (hc : Flo.CuckooIn F rid id cuckoo) :
    (fs.withCuckoo cuckoo).Genuine F rid id where
  realm := by rw [withCuckoo_flo]; exact h.realm
  keyed := by rw [withCuckoo_flo]; exact h.keyed
  entry := by
    constructor
    case flo     => rw [withCuckoo_flo]; exact h.entry.flo
    case cuckoos =>
      intro c hm
      rw [withCuckoo_flo]
      rcases mem_cuckoos_withCuckoo.mp hm with hm | rfl
      · exact h.entry.cuckoos c hm
      · rw [h.realm, h.keyed]
        exact hc

-- The order in which a hash map is iterated does not matter.
theorem Genuine.of_contents (h : fs.Genuine F rid id) (hc : fs'.contents = fs.contents) :
    fs'.Genuine F rid id := by
  have he : FloCuckoo.contents (fs'.flo, fs'.cuckoos) = FloCuckoo.contents (fs.flo, fs.cuckoos) :=
    congrArg Prod.fst hc
  have hf : fs'.flo.contents = fs.flo.contents := congrArg Prod.fst he
  constructor
  case realm => exact (Flo.realm_of_contents hf).trans h.realm
  case keyed => exact (Flo.floId_of_contents hf).trans h.keyed
  case entry => exact h.entry.of_contents he

end FloStorage

namespace RealmStorage

variable [Sha256] {F : Flo.Contents → Prop} {s s' : RealmStorage} {rid : RealmID}
  {id parent cuckoo : FloID} {flo : Flo} {fs : FloStorage} {estimated stored : Int}
  {isNew : Bool} {cuckoos : List FloID}

-- A storage as a node keeps it for a realm, in which everything has been handed in.
def Genuine (F : Flo.Contents → Prop) (s : RealmStorage) (rid : RealmID) : Prop :=
  ∀ id fs, s.flos.lookup id = some fs → fs.Genuine F rid id

theorem Genuine.of_contents (h : s.Genuine F rid) (hc : s'.contents = s.contents) :
    s'.Genuine F rid := by
  intro id fs' hl
  obtain ⟨fs, hl, hfs⟩ := HashMap.exists_of_contents (congrArg Contents.flos hc) hl
  exact (h id fs hl).of_contents hfs.symm

omit [Sha256] in
theorem lookup_of_removeFurthest (hl : s.removeFurthest.flos.lookup id = some fs) :
    s.flos.lookup id = some fs := by
  unfold removeFurthest at hl
  dsimp only at hl
  split at hl
  case h_2 => exact hl
  case h_1 =>
    split at hl
    case h_2 => exact hl
    case h_1 =>
      rw [lookup_removeEntry] at hl
      split at hl
      case isTrue  => cases hl
      case isFalse => exact hl

-- What is stored after a call of `upsert_flo` was there before, up to the new cuckoo, or it is the
-- flo.
theorem entry_upserts (hu : s.Upserts estimated stored flo s' isNew)
    (hl : s'.flos.lookup id = some fs) : id = flo.floId ∧ fs = .ofFlo stored flo ∨
      s.flos.lookup id = some fs ∨ flo.floConfig.cuckooParent = some id ∧
        ∃ fs', s.flos.lookup id = some fs' ∧ fs = fs'.withCuckoo flo.floId := by
  by_cases ho : s.oversized flo
  case pos => exact .inr <| .inl <| (upserts_of_oversized ho).mp hu |>.left ▸ hl
  case neg =>
    have ht : (s.taken estimated stored flo).flos.lookup id = some fs := by
      have hinv := ((upserts_iff ho).mp hu).right.invariant
        (P := fun s' => s'.flos.lookup id = some fs →
          (s.taken estimated stored flo).flos.lookup id = some fs)
        (fun hl => hl) fun _ _ hs hl => hs <| lookup_of_removeFurthest hl
      exact hinv.left hl
    have hadopt (hl : (s.adoptCuckoo flo).flos.lookup id = some fs) :
        s.flos.lookup id = some fs ∨ flo.floConfig.cuckooParent = some id ∧
          ∃ fs', s.flos.lookup id = some fs' ∧ fs = fs'.withCuckoo flo.floId := by
      rw [lookup_adoptCuckoo] at hl
      split at hl
      case isFalse   => exact .inl hl
      case isTrue hp =>
        obtain ⟨fs', hl, hfs⟩ := Option.map_eq_some_iff.mp hl
        exact .inr ⟨hp, fs', hl, hfs.symm⟩
    unfold RealmStorage.taken at ht
    dsimp only at ht
    split at ht
    case isFalse => exact .inr (hadopt ht)
    case isTrue  =>
      rw [lookup_put] at ht
      split at ht
      case isTrue hi => exact .inl ⟨hi, (Option.some.inj ht).symm⟩
      case isFalse   => exact .inr (hadopt ht)

theorem Genuine.upserts (h : s.Genuine F rid) (hf : F flo.contents) (hr : flo.realm = rid)
    (hu : s.Upserts estimated stored flo s' isNew) : s'.Genuine F rid := by
  intro id fs hl
  rcases entry_upserts hu hl with ⟨rfl, rfl⟩ | hl₀ | ⟨hp, fs, hl₀, rfl⟩
  · exact hr ▸ FloStorage.genuine_ofFlo hf stored
  · exact h id fs hl₀
  · exact (h id fs hl₀).withCuckoo ⟨flo, hf, hr, rfl, hp⟩

theorem Genuine.storeCuckooId (h : s.Genuine F rid) (hc : Flo.CuckooIn F rid parent cuckoo) :
    (s.storeCuckooId parent cuckoo).Genuine F rid := by
  intro id fs hl
  rw [lookup_storeCuckooId] at hl
  split at hl
  case isFalse   => exact h id fs hl
  case isTrue hi =>
    obtain ⟨fs, hl₀, rfl⟩ := Option.map_eq_some_iff.mp hl
    exact (h id fs hl₀).withCuckoo (hi ▸ hc)

theorem Genuine.storeCuckooIds (h : s.Genuine F rid)
    (hc : ∀ c ∈ cuckoos, Flo.CuckooIn F rid parent c) :
    (s.storeCuckooIds parent cuckoos).Genuine F rid := by
  unfold RealmStorage.storeCuckooIds
  induction cuckoos generalizing s
  case nil         => exact h
  case cons c _ hi =>
    obtain ⟨hc, hcs⟩ := List.forall_mem_cons.mp hc
    exact hi (h.storeCuckooId hc) hcs

theorem genuine_new {realm : FloRealm} (hf : F realm.flo.contents) (dhtConfig : DHTConfig)
    (root : NodeID) (now : Int) :
    (RealmStorage.new dhtConfig root now realm).Genuine F realm.flo.realm := by
  intro id fs hl
  rw [RealmStorage.new, lookup_put] at hl
  split at hl
  case isTrue hi => exact hi ▸ Option.some.inj hl ▸ FloStorage.genuine_ofFlo hf now
  case isFalse   => simp at hl

end RealmStorage

section

variable [Sha256] (F : Flo.Contents → Prop)

-- The messages which only speak about what has been handed in.

def MessageClosest.Genuine (key : U256) : MessageClosest → Prop
  | .storeFlo flo      => F flo.contents
  | .storeCuckooId gid => Flo.CuckooIn F gid.realmId key gid.floId
  | _                  => True

def MessageDest.Genuine : MessageDest → Prop
  | .floValue fc _      => FloCuckoo.Genuine F fc
  | .cookooIds gid cids => ∀ c ∈ cids, Flo.CuckooIn F gid.realmId gid.floId c
  | .unknownFlo _       => True

def MessageNeighbour.Genuine : MessageNeighbour → Prop
  | .flos fcs => ∀ fc ∈ fcs, FloCuckoo.Genuine F fc
  | _         => True

def DHTStorageOut.Genuine : DHTStorageOut → Prop
  | .floValue fc        => FloCuckoo.Genuine F fc
  | .floValues fcs      => ∀ fc ∈ fcs, FloCuckoo.Genuine F fc
  | .cuckooIds gid cids => ∀ c ∈ cids, Flo.CuckooIn F gid.realmId gid.floId c
  | _                   => True

def Write.Genuine : Write → Prop
  | .nothing                         => True
  | .storeFlo flo                    => F flo.contents
  | .storeFloCuckoos fcs             => ∀ fc ∈ fcs, FloCuckoo.Genuine F fc
  | .storeCuckooId rid parent cuckoo => Flo.CuckooIn F rid parent cuckoo

variable [Yaml MessageClosest] [Yaml MessageNeighbour] [Yaml MessageDest]

-- What the router may carry for the storage.
def genuineCargo : DHTRouter.Cargo where
  closest key w :=
    (∀ msg, w.unwrapYaml MessageClosest dhtStorageName = some msg → msg.Genuine F key) ∧
      ∀ msg, w.unwrapYaml MessageDest dhtStorageName = some msg → msg.Genuine F
  dest w        := ∀ msg, w.unwrapYaml MessageDest dhtStorageName = some msg → msg.Genuine F
  neighbour w   := ∀ msg, w.unwrapYaml MessageNeighbour dhtStorageName = some msg → msg.Genuine F
  arrives h     := h.right

def InternIn.Genuine : InternIn → Prop
  | .routing msg             => (genuineCargo F).Told msg
  | .storage (.storeFlo flo) => F flo.contents
  | _                        => True

def InternOut.Genuine : InternOut → Prop
  | .routing msg => (genuineCargo F).Asked msg
  | .storage msg => msg.Genuine F

-- What is read from the texts of the messages and of the realms has the contents of what was
-- written, and those of the two kinds of routed messages are not mixed up.
structure YamlFaithful [Yaml (HashMap RealmID RealmStorage)] : Prop where
  realms    : RealmStorage.Rereads
  closest   : Yaml.Rereads MessageClosest.contents
  dest      : Yaml.Rereads MessageDest.contents
  neighbour : Yaml.Rereads MessageNeighbour.contents
  apart     : ∀ msg : MessageClosest, ∀ s, Yaml.toString msg = some s →
    (Yaml.fromStr s : Option MessageDest) = none

variable {F}

section Contents

omit [Yaml MessageClosest] [Yaml MessageNeighbour] [Yaml MessageDest]

theorem MessageClosest.Genuine.of_contents {key : U256} {msg msg' : MessageClosest}
    (h : msg.Genuine F key) (hc : msg'.contents = msg.contents) : msg'.Genuine F key := by
  cases msg <;> cases msg' <;>
    simp only [contents, Sum.inl.injEq, Sum.inr.injEq, reduceCtorEq] at hc
  case storeFlo.storeFlo           => exact (congrArg F hc).mpr h
  case storeCuckooId.storeCuckooId => exact hc ▸ h
  all_goals trivial

theorem MessageDest.Genuine.of_contents {msg msg' : MessageDest} (h : msg.Genuine F)
    (hc : msg'.contents = msg.contents) : msg'.Genuine F := by
  cases msg <;> cases msg' <;>
    simp only [contents, Sum.inl.injEq, Sum.inr.injEq, reduceCtorEq] at hc
  case floValue.floValue     => exact FloCuckoo.Genuine.of_contents h (Prod.mk.inj hc).left
  case cookooIds.cookooIds   => exact hc ▸ h
  case unknownFlo.unknownFlo => trivial

theorem MessageNeighbour.Genuine.of_contents {msg msg' : MessageNeighbour} (h : msg.Genuine F)
    (hc : msg'.contents = msg.contents) : msg'.Genuine F := by
  cases msg <;> cases msg' <;>
    simp only [contents, Sum.inl.injEq, Sum.inr.injEq, reduceCtorEq] at hc
  case flos.flos fcs fcs' =>
    intro fc' hm
    obtain ⟨fc, hm, hfc⟩ := List.mem_map.mp <| hc ▸ List.mem_map_of_mem hm
    exact (h fc hm).of_contents hfc.symm
  all_goals trivial

end Contents

theorem InternIn.Genuine.write {input : InternIn} (h : input.Genuine F) :
    input.write.Genuine F := by
  cases input
  case storage msg   => cases msg <;> exact h
  case propagateFlos => trivial
  case routing msg   =>
    cases msg <;> simp only [InternIn.write]
    case nodeList | systemRealm => trivial
    case messageRouting key w | messageClosest key w =>
      cases hu : w.unwrapYaml MessageClosest dhtStorageName
      case none     => trivial
      case some msg =>
        have hg := h.left msg hu
        cases msg <;> exact hg
    case messageDest w =>
      cases hu : w.unwrapYaml MessageDest dhtStorageName
      case none     => trivial
      case some msg =>
        have hg := h msg hu
        cases msg
        case floValue => exact List.forall_mem_singleton.mpr hg
        all_goals trivial
    case messageNeighbour w =>
      cases hu : w.unwrapYaml MessageNeighbour dhtStorageName
      case none     => trivial
      case some msg =>
        have hg := h msg hu
        cases msg <;> exact hg

end

namespace Messages

variable [Sha256] [RealmReader] [Yaml (HashMap RealmID RealmStorage)] {F : Flo.Contents → Prop}
  {m m' : Messages} {env : Env} {flo : Flo} {fc : FloCuckoo} {fcs : List FloCuckoo}
  {isNew : Bool} {out : List InternOut} {write : Write} {realms : HashMap RealmID RealmStorage}
  {rid : RealmID} {s : RealmStorage} {g : RealmStorage → RealmStorage}

def GenuineRealms (F : Flo.Contents → Prop) (realms : HashMap RealmID RealmStorage) : Prop :=
  ∀ rid s, realms.lookup rid = some s → s.Genuine F rid

-- What the data storage holds.
def saved (m : Messages) : Option (HashMap RealmID RealmStorage) :=
  Yaml.fromStr ((m.ds.lookup dhtStorageName).getD "")

structure Genuine (F : Flo.Contents → Prop) (m : Messages) : Prop where
  realms : GenuineRealms F m.realms
  saved  : ∀ realms, m.saved = some realms → GenuineRealms F realms

omit [RealmReader] [Yaml (HashMap RealmID RealmStorage)] in
theorem GenuineRealms.of_contents {realms' : HashMap RealmID RealmStorage}
    (h : GenuineRealms F realms)
    (hc : realms'.contents RealmStorage.contents = realms.contents RealmStorage.contents) :
    GenuineRealms F realms' := by
  intro rid s' hl
  obtain ⟨s, hl, hs⟩ := HashMap.exists_of_contents hc hl
  exact (h rid s hl).of_contents hs.symm

omit [RealmReader] [Yaml (HashMap RealmID RealmStorage)] in
theorem GenuineRealms.insert (h : GenuineRealms F realms) (hs : s.Genuine F rid) :
    GenuineRealms F (realms.insert rid s) := by
  intro i s' hl
  rw [HashMap.lookup_insert_eq] at hl
  split at hl
  case isTrue hi => exact Option.some.inj hl ▸ hi ▸ hs
  case isFalse   => exact h i s' hl

omit [RealmReader] [Yaml (HashMap RealmID RealmStorage)] in
theorem GenuineRealms.modify (h : GenuineRealms F realms)
    (hg : ∀ s, s.Genuine F rid → (g s).Genuine F rid) :
    GenuineRealms F (HashMap.modify realms rid g) := by
  intro i s' hl
  rw [HashMap.lookup_modify] at hl
  split at hl
  case isFalse   => exact h i s' hl
  case isTrue hi =>
    obtain ⟨s, hl₀, rfl⟩ := Option.map_eq_some_iff.mp hl
    exact hi ▸ hg s (h rid s hl₀)

omit [Yaml (HashMap RealmID RealmStorage)] in
theorem Takes.genuineRealms (ht : m.Takes env flo m' isNew) (hf : F flo.contents)
    (h : GenuineRealms F m.realms) : GenuineRealms F m'.realms ∧ m'.ds = m.ds := by
  cases ht
  case known hl hu => exact ⟨h.insert <| (h _ _ hl).upserts hf rfl hu, rfl⟩
  case created     => exact ⟨h.insert <| RealmStorage.genuine_new hf _ _ _, rfl⟩
  case ignored     => exact ⟨h, rfl⟩

omit [RealmReader] in
theorem Genuine.congr (h : m.Genuine F) (hr : GenuineRealms F m'.realms) (hd : m'.ds = m.ds) :
    m'.Genuine F where
  realms := hr
  saved  := by rw [Messages.saved, hd]; exact h.saved

omit [RealmReader] in
theorem Genuine.store (hy : RealmStorage.Rereads) (h : m.Genuine F) :
    m.store.Genuine F where
  realms := store_realms m ▸ h.realms
  saved  := by
    intro realms hs
    unfold Messages.store at hs
    split at hs
    case h_2    => exact h.saved realms hs
    case h_1 ht =>
      rw [Messages.saved, AList.lookup_insert, Option.getD_some] at hs
      exact h.realms.of_contents (hy _ _ ht _ hs)

variable [Yaml MessageClosest]

theorem Genuine.storeFlo (hy : RealmStorage.Rereads) (h : m.Genuine F)
    (hf : F flo.contents) (hs : m.storeFlo env flo = some (m', out)) : m'.Genuine F := by
  obtain ⟨m₁, isNew, ht, rfl, _⟩ := storeFlo_eq_some.mp hs
  obtain ⟨hr, hd⟩ := (takes_of_takeFlo ht).genuineRealms hf h.realms
  have h₁ := h.congr hr hd
  split
  case isTrue  => exact h₁.store hy
  case isFalse => exact h₁

theorem Genuine.storeFloCuckoo (hy : RealmStorage.Rereads)
    (h : m.Genuine F) (hf : FloCuckoo.Genuine F fc) (hs : m.storeFloCuckoo env fc = some m') :
    m'.Genuine F := by
  obtain ⟨⟨m₁, _⟩, hs, hm⟩ := Option.bind_eq_some_iff.mp hs
  have h₁ := h.storeFlo hy hf.flo hs
  cases hm
  exact h₁.congr (h₁.realms.modify fun _ hg => hg.storeCuckooIds hf.cuckoos) rfl

theorem Genuine.storeFloCuckoos (hy : RealmStorage.Rereads)
    (h : m.Genuine F) (hf : ∀ fc ∈ fcs, FloCuckoo.Genuine F fc)
    (hs : m.storeFloCuckoos env fcs = some m') : m'.Genuine F := by
  induction fcs generalizing m env
  case nil             => exact Option.some.inj hs ▸ h
  case cons fc fcs hi =>
    obtain ⟨hfc, hfcs⟩ := List.forall_mem_cons.mp hf
    obtain ⟨_, h₁, hs⟩ := storeFloCuckoos_cons.mp hs
    exact hi (h.storeFloCuckoo hy hfc h₁) hfcs hs

theorem Genuine.perform (hy : RealmStorage.Rereads) (h : m.Genuine F)
    (hw : write.Genuine F) (hs : m.perform env write = some m') : m'.Genuine F := by
  cases write <;> simp only [Messages.perform, Option.some.injEq] at hs
  case nothing         => exact hs ▸ h
  case storeFloCuckoos => exact h.storeFloCuckoos hy hw hs
  case storeCuckooId   =>
    subst hs
    exact h.congr (h.realms.modify fun _ hg => hg.storeCuckooId hw) rfl
  case storeFlo        =>
    obtain ⟨⟨_, _⟩, hs₀, rfl⟩ := Option.map_eq_some_iff.mp hs
    exact h.storeFlo hy hw hs₀

omit [RealmReader] [Yaml MessageClosest] in
theorem Genuine.readFlo (h : m.Genuine F) {id : GlobalID} (hr : m.readFlo id = some fc) :
    FloCuckoo.Genuine F fc := by
  obtain ⟨s, hl, hg⟩ := Option.bind_eq_some_iff.mp hr
  obtain ⟨fs, hl', rfl⟩ := Option.map_eq_some_iff.mp hg
  exact (h.realms _ s hl _ fs hl').entry

omit [RealmReader] [Yaml MessageClosest] in
theorem Genuine.getCuckooIds (h : m.Genuine F) {id : GlobalID} {cids : List FloID}
    (hc : (m.realms.lookup id.realmId).bind (·.getCuckooIds id.floId) = some cids) :
    ∀ c ∈ cids, Flo.CuckooIn F id.realmId id.floId c := by
  obtain ⟨s, hl, hg⟩ := Option.bind_eq_some_iff.mp hc
  obtain ⟨fs, hl', rfl⟩ := Option.map_eq_some_iff.mp hg
  have hs := h.realms _ s hl _ fs hl'
  have hcs := hs.entry.cuckoos
  rwa [hs.realm, hs.keyed] at hcs

section Out

variable [Yaml MessageNeighbour] [Yaml MessageDest] {o : InternOut} {key : U256} {dst : NodeID}

omit [RealmReader] in
theorem genuine_of_closest (hy : YamlFaithful) {msg : MessageClosest}
    (ho : msg.toInternOut key = some o) (h : msg.Genuine F key) : o.Genuine F := by
  obtain ⟨w, hw, rfl⟩ := Option.map_eq_some_iff.mp ho
  constructor
  case left  =>
    exact fun _ hu => h.of_contents <| NetworkWrapper.contents_of_unwrapYaml hy.closest hw hu
  case right =>
    intro msg' hu
    obtain ⟨s, hs, rfl⟩ := Option.map_eq_some_iff.mp hw
    rw [NetworkWrapper.unwrapYaml, if_pos rfl, hy.apart msg s hs] at hu
    cases hu

omit [RealmReader] in
theorem genuine_of_dest (hy : YamlFaithful) {msg : MessageDest}
    (ho : msg.toInternOut dst = some o) (h : msg.Genuine F) : o.Genuine F := by
  obtain ⟨w, hw, rfl⟩ := Option.map_eq_some_iff.mp ho
  exact fun _ hu => h.of_contents <| NetworkWrapper.contents_of_unwrapYaml hy.dest hw hu

omit [RealmReader] in
theorem genuine_of_neighbour (hy : YamlFaithful) {msg : MessageNeighbour}
    (ho : (∃ dst, msg.toNeighbour dst = some o) ∨ msg.toBroadcast = some o) (h : msg.Genuine F) :
    o.Genuine F := by
  have hw {w : NetworkWrapper} (hw : NetworkWrapper.wrapYaml dhtStorageName msg = some w) :
      (genuineCargo F).neighbour w :=
    fun _ hu => h.of_contents <| NetworkWrapper.contents_of_unwrapYaml hy.neighbour hw hu
  rcases ho with ⟨_, ho⟩ | ho
  · unfold MessageNeighbour.toNeighbour at ho
    split at ho
    case isFalse => cases ho
    case isTrue  =>
      obtain ⟨w, hw', rfl⟩ := Option.map_eq_some_iff.mp ho
      exact hw hw'
  · unfold MessageNeighbour.toBroadcast at ho
    split at ho
    case isFalse => cases ho
    case isTrue  =>
      obtain ⟨w, hw', rfl⟩ := Option.map_eq_some_iff.mp ho
      exact hw hw'

omit [RealmReader] in
theorem genuine_announcements (hy : YamlFaithful) (hf : F flo.contents)
    (ho : announcements flo isNew = some out) : ∀ o ∈ out, o.Genuine F := by
  simp only [announcements, Option.bind_eq_bind, Option.bind_eq_some_iff, Option.pure_def,
    Option.some.injEq] at ho
  obtain ⟨stored, hs, cuckoo, hc, rfl⟩ := ho
  refine List.forall_mem_append.mpr ⟨?_, ?_⟩
  case refine_1 =>
    split at hs
    case isFalse => cases hs; exact fun _ hm => absurd hm List.not_mem_nil
    case isTrue  =>
      obtain ⟨o, ho, rfl⟩ := Option.map_eq_some_iff.mp hs
      exact List.forall_mem_singleton.mpr <| genuine_of_closest hy ho hf
  case refine_2 =>
    split at hc
    case h_2         => cases hc; exact fun _ hm => absurd hm List.not_mem_nil
    case h_1 parent hp =>
      obtain ⟨o, ho, rfl⟩ := Option.map_eq_some_iff.mp hc
      exact List.forall_mem_singleton.mpr <|
        genuine_of_closest hy ho ⟨flo, hf, rfl, rfl, hp⟩

theorem genuine_of_storeFlo (hy : YamlFaithful) (hf : F flo.contents)
    (hs : m.storeFlo env flo = some (m', out)) : ∀ o ∈ out, o.Genuine F := by
  obtain ⟨_, _, _, _, ha⟩ := storeFlo_eq_some.mp hs
  exact genuine_announcements hy hf ha

omit [RealmReader] [Yaml MessageClosest] [Yaml MessageNeighbour] [Yaml MessageDest] in
theorem Genuine.answer (h : m.Genuine F) {msg ans : MessageNeighbour}
    (ha : ans ∈ m.answer env msg) : ans.Genuine F := by
  cases ans
  case flos fcs =>
    cases msg <;> simp only [Messages.answer] at ha
    case requestFlos rid ids =>
      split at ha <;> [skip; cases ha]
      split at ha <;> [skip; cases ha]
      case h_1 s hl =>
        cases List.mem_singleton.mp ha
        intro fc hm
        obtain ⟨id, _, hg⟩ := List.mem_filterMap.mp hm
        have hr : m.readFlo ⟨rid, id⟩ = some fc := Option.bind_eq_some_iff.mpr ⟨s, hl, hg⟩
        exact h.readFlo hr
    case requestRealmIds | requestFloMetas | availableRealmIds | availableFlos | flos =>
      repeat first | split at ha | simp at ha
  all_goals trivial

theorem genuine_of_msgNeighbour (hy : YamlFaithful) (h : m.Genuine F) {origin : NodeID}
    {msg : MessageNeighbour} (hs : m.msgNeighbour env origin msg = some (m', out)) :
    ∀ o ∈ out, o.Genuine F := by
  rw [out_of_msgNeighbour hs]
  intro o hm
  obtain ⟨ans, hans, ho⟩ := List.mem_filterMap.mp hm
  exact genuine_of_neighbour hy (.inl ⟨_, ho⟩) (h.answer hans)

theorem genuine_of_msgDest {msg : MessageDest} (hg : msg.Genuine F)
    (hs : m.msgDest env msg = some (m', out)) : ∀ o ∈ out, o.Genuine F := by
  cases msg
  case floValue =>
    obtain ⟨_, _, hs⟩ := Option.bind_eq_some_iff.mp hs
    cases hs
    exact List.forall_mem_singleton.mpr hg
  all_goals
    cases hs
    exact List.forall_mem_singleton.mpr hg

theorem genuine_of_msgRouting (hy : YamlFaithful) (h : m.Genuine F) {origin : NodeID}
    {msg : MessageClosest} (hg : msg.Genuine F key)
    (hs : m.msgRouting env origin key msg = some (m', out)) : ∀ o ∈ out, o.Genuine F := by
  have hnil : ∀ o ∈ ([] : List InternOut), o.Genuine F := fun _ hm => absurd hm List.not_mem_nil
  cases msg <;> simp only [msgRouting] at hs
  case storeFlo      => exact genuine_of_storeFlo hy hg hs
  case storeCuckooId => cases hs; exact hnil
  case readFlo rid requestId =>
    split at hs <;> [split at hs; skip]
    case h_1.isTrue hr _ =>
      cases hs
      intro o hm
      exact genuine_of_dest hy (Option.mem_toList.mp hm) (h.readFlo hr)
    all_goals
      cases hs
      exact hnil
  case getCuckooIds rid =>
    split at hs
    case h_2    => cases hs; exact hnil
    case h_1 hc =>
      cases hs
      intro o hm
      exact genuine_of_dest hy (Option.mem_toList.mp hm) (h.getCuckooIds hc)

theorem genuine_of_msgDhtStorage (hy : YamlFaithful) (h : m.Genuine F) {msg : DHTStorageIn}
    (hg : InternIn.Genuine F (.storage msg)) (hs : m.msgDhtStorage env msg = some (m', out)) :
    ∀ o ∈ out, o.Genuine F := by
  cases msg <;> simp only [msgDhtStorage] at hs
  case storeFlo => exact genuine_of_storeFlo hy hg hs
  case getRealms => cases hs; exact List.forall_mem_singleton.mpr trivial
  case syncFromNeighbors =>
    obtain ⟨o, ho, hs⟩ := Option.bind_eq_some_iff.mp hs
    cases hs
    exact List.forall_mem_singleton.mpr <| genuine_of_neighbour hy (.inr ho) trivial
  case readFlo id =>
    split at hs
    case h_1 hr => cases hs; exact List.forall_mem_singleton.mpr (h.readFlo hr)
    case h_2    =>
      obtain ⟨o, ho, hs⟩ := Option.bind_eq_some_iff.mp hs
      cases hs
      exact List.forall_mem_singleton.mpr <| genuine_of_closest hy ho trivial
  case readCuckooIds id =>
    obtain ⟨o, ho, hs⟩ := Option.bind_eq_some_iff.mp hs
    cases hs
    refine List.forall_mem_append.mpr ⟨?_, ?_⟩
    case refine_2 => exact List.forall_mem_singleton.mpr <| genuine_of_closest hy ho trivial
    case refine_1 =>
      split
      case h_1 hc => exact List.forall_mem_singleton.mpr (h.getCuckooIds hc)
      case h_2    => exact fun _ hm => absurd hm List.not_mem_nil
  case getFlos =>
    cases hs
    refine List.forall_mem_singleton.mpr fun fc hm => ?_
    obtain ⟨s, hv, hm⟩ := List.mem_flatMap.mp hm
    obtain ⟨rid, hl⟩ := HashMap.mem_values.mp hv
    obtain ⟨fs, hv, rfl⟩ := List.mem_map.mp hm
    obtain ⟨id, hl'⟩ := HashMap.mem_values.mp hv
    exact (h.realms rid s hl id fs hl').entry

-- A node which only has what was handed in, and which is only told about such things, does not make
-- anything up.
theorem Genuine.message (hy : YamlFaithful) (h : m.Genuine F) {input : InternIn}
    (hg : input.Genuine F) (hs : m.message env input = some (m', out)) :
    m'.Genuine F ∧ ∀ o ∈ out, o.Genuine F := by
  constructor
  case left  =>
    obtain ⟨m₁, hp, hr, hd⟩ := perform_of_message hs
    have h₁ := h.perform hy.realms hg.write hp
    exact h₁.congr (hr ▸ h₁.realms) hd
  case right =>
    have hnil : ∀ o ∈ ([] : List InternOut), o.Genuine F := fun _ hm => absurd hm List.not_mem_nil
    cases input <;> simp only [Messages.message] at hs
    case storage       => exact genuine_of_msgDhtStorage hy h hg hs
    case propagateFlos =>
      cases hs
      intro o hm
      exact genuine_of_neighbour hy (.inr (Option.mem_toList.mp hm)) trivial
    case routing msg   =>
      cases msg <;> simp only [msgDhtRouter] at hs
      case nodeList    => cases hs; exact hnil
      case systemRealm => split at hs <;> (cases hs; exact hnil)
      case messageRouting | messageClosest =>
        split at hs
        case h_1 hu => exact genuine_of_msgRouting hy h (hg.left _ hu) hs
        case h_2    => cases hs; exact hnil
      case messageDest =>
        split at hs
        case h_1 hu => exact genuine_of_msgDest (hg _ hu) hs
        case h_2    => cases hs; exact hnil
      case messageNeighbour =>
        split at hs
        case h_1 hu => exact genuine_of_msgNeighbour hy h hs
        case h_2    => cases hs; exact hnil

end Out

end Messages
