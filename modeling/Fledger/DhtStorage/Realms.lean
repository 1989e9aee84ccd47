import Fledger.DhtStorage.Messages

namespace RealmStorage

variable [Sha256] {s s' : RealmStorage} {rid : RealmID} {flo : Flo} {estimated stored : Int}
  {isNew : Bool}

-- A storage as `Messages` keeps it under the id of the realm.
structure Hosts (s : RealmStorage) (rid : RealmID) : Prop where
  reachable : Reachable s
  realmId   : s.realmId = rid
  realm     : ∀ {id fs}, s.flos.lookup id = some fs → fs.flo.realm = rid

theorem hosts_new (dhtConfig : DHTConfig) (root : NodeID) (now : Int) (realm : FloRealm) :
    (RealmStorage.new dhtConfig root now realm).Hosts realm.flo.realm where
  reachable := .new ..
  realmId   := (frame_put ..).realmId
  realm hl  := by
    rw [RealmStorage.new, lookup_put] at hl
    split at hl
    case isTrue  => exact Option.some.inj hl ▸ rfl
    case isFalse => simp at hl

theorem Hosts.upserts (h : s.Hosts rid) (hr : flo.realm = rid)
    (hu : s.Upserts estimated stored flo s' isNew) : s'.Hosts rid where
  reachable := h.reachable.step (.upsertFlo hu)
  realmId   := (h.reachable.wf.frame_upserts hu).realmId.trans h.realmId
  realm hl  := by
    rcases h.reachable.wf.lookup_upserts hu hl with ⟨_, hfs, _⟩ | ⟨_, hl, hf⟩
    · exact hfs ▸ hr
    · exact hf ▸ h.realm hl

omit [Sha256] in
theorem frame_storeCuckooIds (s : RealmStorage) (parent : FloID) (cuckoos : List FloID) :
    Frame s (s.storeCuckooIds parent cuckoos) := by
  unfold storeCuckooIds
  induction cuckoos generalizing s
  case nil        => exact .refl s
  case cons hi    => exact (frame_storeCuckooId ..).trans (hi _)

theorem Hosts.storeCuckooIds (h : s.Hosts rid) (parent : FloID) (cuckoos : List FloID) :
    (s.storeCuckooIds parent cuckoos).Hosts rid where
  reachable := h.reachable.step (.storeCuckooIds ..)
  realmId   := (frame_storeCuckooIds ..).realmId.trans h.realmId
  realm {id _} hl := by
    have hf := flo_storeCuckooIds s parent cuckoos id
    rw [hl] at hf
    have ⟨_, hl, hf⟩ := Option.map_eq_some_iff.mp hf.symm
    exact hf ▸ h.realm hl

theorem Hosts.storeCuckooId (h : s.Hosts rid) (parent cuckoo : FloID) :
    (s.storeCuckooId parent cuckoo).Hosts rid :=
  h.storeCuckooIds parent [cuckoo]

end RealmStorage

-- What an input can change about the realms.
inductive Write
  | nothing
  | storeFlo (flo : Flo)
  | storeFloCuckoos (fcs : List FloCuckoo)
  | storeCuckooId (rid : RealmID) (parent cuckoo : FloID)

def MessageClosest.write (key : U256) : MessageClosest → Write
  | .storeFlo flo      => .storeFlo flo
  | .storeCuckooId gid => .storeCuckooId gid.realmId key gid.floId
  | _                  => .nothing

def MessageDest.write : MessageDest → Write
  | .floValue fc _ => .storeFloCuckoos [fc]
  | _              => .nothing

def MessageNeighbour.write : MessageNeighbour → Write
  | .flos fcs => .storeFloCuckoos fcs
  | _         => .nothing

def DHTStorageIn.write : DHTStorageIn → Write
  | .storeFlo flo => .storeFlo flo
  | _             => .nothing

def InternIn.write [Yaml MessageClosest] [Yaml MessageDest] [Yaml MessageNeighbour] :
    InternIn → Write
  | .storage msg => msg.write
  | .routing (.messageRouting _ _ _ key msg) | .routing (.messageClosest _ _ key msg) =>
    (msg.unwrapYaml MessageClosest dhtStorageName).elim .nothing (·.write key)
  | .routing (.messageDest _ _ msg) =>
    (msg.unwrapYaml MessageDest dhtStorageName).elim .nothing MessageDest.write
  | .routing (.messageNeighbour _ msg) =>
    (msg.unwrapYaml MessageNeighbour dhtStorageName).elim .nothing MessageNeighbour.write
  | _ => .nothing

namespace Messages

variable [Sha256] [RealmReader] {m m' m₁ : Messages} {env : Env} {flo : Flo} {rid : RealmID}
  {isNew : Bool} {fc : FloCuckoo} {fcs : List FloCuckoo} {out : List InternOut}
  {g : RealmStorage → RealmStorage} {s s' : RealmStorage}

def insertRealm (m : Messages) (rid : RealmID) (s : RealmStorage) : Messages :=
  { m with realms := m.realms.insert rid s }

-- What happens to a flo: its realm takes care of it, it is the flo of a new realm, or it is ignored.
inductive Takes (m : Messages) (env : Env) (flo : Flo) : Messages → Bool → Prop
  | known {s s' : RealmStorage} {isNew : Bool} (lookup : m.realms.lookup flo.realm = some s)
    (upserts : s.Upserts (env.now 0) (env.now 1) flo s' isNew) :
    Takes m env flo (m.insertRealm flo.realm s') isNew
  | created {object : Realm} (lookup : m.realms.lookup flo.realm = none)
    (parses : FloRealm.tryFrom flo = .ok { flo, object })
    (accepted : m.config.acceptsRealm flo.realm = true) :
    Takes m env flo
      (m.insertRealm flo.realm <| .new m.config m.ourId (env.now 0) { flo, object }) true
  | ignored (lookup : m.realms.lookup flo.realm = none)
    (refused : ∀ object, FloRealm.tryFrom flo = .ok { flo, object } →
      m.config.acceptsRealm flo.realm = false) : Takes m env flo m false

omit [Sha256] in
theorem tryFrom_flo {realm : FloRealm} (h : FloRealm.tryFrom flo = .ok realm) : realm.flo = flo := by
  unfold FloRealm.tryFrom at h
  dsimp only at h
  split at h <;> [skip; split at h] <;>
    simp only [Outcome.throw_ne_ok, Outcome.pure_eq_ok] at h
  exact h ▸ rfl

omit [RealmReader] in
theorem createRealm_eq_ok {now : Int} {realm : FloRealm} : m.createRealm now realm = .ok m' ↔
    m.config.acceptsRealm realm.flo.realm = true ∧
    m.insertRealm realm.flo.realm (.new m.config m.ourId now realm) = m' := by
  unfold createRealm
  cases m.config.acceptsRealm realm.flo.realm
  case false => simp
  case true  => simp [insertRealm]

theorem takes_of_takeFlo (h : m.takeFlo env flo = some (m', isNew)) : m.Takes env flo m' isNew := by
  unfold takeFlo at h
  split at h
  case h_1 s hl =>
    have ⟨⟨s', b⟩, hu, hm⟩ := Option.bind_eq_some_iff.mp h
    cases hm
    exact .known hl ⟨env.fuel, hu⟩
  case h_2 hl =>
    split at h
    case h_1 hr =>
      cases h
      exact .ignored hl fun object hr' => by simp [hr] at hr'
    case h_2 realm hr =>
      have hf := tryFrom_flo hr
      obtain ⟨_, object⟩ := realm
      cases hf
      split at h
      case h_1 hc =>
        cases h
        refine .ignored hl fun _ _ => Bool.eq_false_iff.mpr fun ha => ?_
        have hok : m.createRealm (env.now 0) { flo := _, object := object } = .ok _ :=
          createRealm_eq_ok.mpr ⟨ha, rfl⟩
        simp [hc] at hok
      case h_2 hc =>
        cases h
        have ⟨ha, hm⟩ := createRealm_eq_ok.mp hc
        exact hm ▸ .created hl hr ha

structure Wf (m : Messages) : Prop where
  hosts : ∀ {rid s}, m.realms.lookup rid = some s → s.Hosts rid

omit [RealmReader] in
theorem Wf.insertRealm (h : m.Wf) (hs : s.Hosts rid) : (m.insertRealm rid s).Wf where
  hosts {i _} hl := by
    rw [Messages.insertRealm, HashMap.lookup_insert_eq] at hl
    split at hl
    case isTrue hi => exact Option.some.inj hl ▸ hi ▸ hs
    case isFalse   => exact h.hosts hl

omit [RealmReader] in
theorem Wf.mapRealm (h : m.Wf) (hg : ∀ {s}, m.realms.lookup rid = some s → (g s).Hosts rid) :
    (m.mapRealm rid g).Wf where
  hosts {i _} hl := by
    rw [Messages.mapRealm, HashMap.lookup_modify] at hl
    split at hl
    case isTrue hi =>
      have ⟨_, hl, hs⟩ := Option.map_eq_some_iff.mp hl
      exact hs ▸ hi ▸ hg hl
    case isFalse => exact h.hosts hl

theorem Wf.takes (h : m.Wf) (ht : m.Takes env flo m' isNew) : m'.Wf := by
  cases ht
  case known hl hu => exact h.insertRealm <| (h.hosts hl).upserts rfl hu
  case created     => exact h.insertRealm <| RealmStorage.hosts_new ..
  case ignored     => exact h

theorem Takes.config (h : m.Takes env flo m' isNew) : m'.config = m.config := by
  cases h <;> rfl

omit [RealmReader] in
theorem Wf.congr (h : m.Wf) (hr : m'.realms = m.realms) : m'.Wf where
  hosts hl := h.hosts (hr ▸ hl)

section Store

variable [Yaml (HashMap RealmID RealmStorage)]

omit [Sha256] [RealmReader]

theorem store_realms (m : Messages) : m.store.realms = m.realms := by
  unfold store
  split <;> rfl

theorem store_config (m : Messages) : m.store.config = m.config := by
  unfold store
  split <;> rfl

end Store

section Handlers

variable [Yaml (HashMap RealmID RealmStorage)] [Yaml MessageClosest]

-- The new flos are what is persisted and announced.
theorem storeFlo_eq_some : m.storeFlo env flo = some (m', out) ↔ ∃ m₁ isNew,
    m.takeFlo env flo = some (m₁, isNew) ∧ m' = (if isNew then m₁.store else m₁) ∧
    announcements flo isNew = some out := by
  simp only [storeFlo, upsertFlo, Option.bind_eq_bind, Option.bind_eq_some_iff, Prod.exists,
    Option.pure_def, Option.some.injEq, Prod.mk.injEq]
  constructor
  case mp =>
    rintro ⟨_, _, ⟨m₁, isNew, ht, hm, hn⟩, _, ha, hm', ho⟩
    exact ⟨m₁, isNew, ht, hm' ▸ hm.symm, hn ▸ ho ▸ ha⟩
  case mpr =>
    rintro ⟨m₁, isNew, ht, hm, ha⟩
    exact ⟨m', isNew, ⟨m₁, isNew, ht, hm.symm, rfl⟩, out, ha, rfl, rfl⟩

theorem takes_of_storeFlo (h : m.storeFlo env flo = some (m', out)) : ∃ m₁ isNew,
    m.Takes env flo m₁ isNew ∧ m'.realms = m₁.realms ∧ m'.config = m₁.config := by
  have ⟨m₁, isNew, ht, hm, _⟩ := storeFlo_eq_some.mp h
  refine ⟨m₁, isNew, takes_of_takeFlo ht, ?_, ?_⟩
  all_goals
    rw [hm]
    split
  case refine_1.isTrue => exact store_realms m₁
  case refine_2.isTrue => exact store_config m₁
  all_goals rfl

-- A flo is taken, and its cuckoos are added.
theorem takes_of_storeFloCuckoo (h : m.storeFloCuckoo env fc = some m') : ∃ m₁ isNew,
    m.Takes env fc.1 m₁ isNew ∧ m'.config = m.config ∧
    m'.realms = (m₁.mapRealm fc.1.realm (·.storeCuckooIds fc.1.floId fc.2)).realms := by
  have ⟨⟨m₂, _⟩, hs, hm⟩ := Option.bind_eq_some_iff.mp h
  have ⟨m₁, isNew, ht, hr, hc⟩ := takes_of_storeFlo hs
  cases hm
  refine ⟨m₁, isNew, ht, hc.trans ht.config, ?_⟩
  rw [mapRealm, mapRealm, hr]

theorem Wf.storeFlo (h : m.Wf) (hs : m.storeFlo env flo = some (m', out)) : m'.Wf := by
  have ⟨_, _, ht, hr, _⟩ := takes_of_storeFlo hs
  exact (h.takes ht).congr hr

theorem Wf.storeFloCuckoo (h : m.Wf) (hs : m.storeFloCuckoo env fc = some m') : m'.Wf := by
  have ⟨_, _, ht, _, hr⟩ := takes_of_storeFloCuckoo hs
  have h := h.takes ht
  exact (h.mapRealm fun hl => (h.hosts hl).storeCuckooIds ..).congr hr

theorem storeFloCuckoos_cons : m.storeFloCuckoos env (fc :: fcs) = some m' ↔ ∃ m₁,
    m.storeFloCuckoo env fc = some m₁ ∧ m₁.storeFloCuckoos env.next fcs = some m' :=
  Option.bind_eq_some_iff

theorem Wf.storeFloCuckoos (h : m.Wf) (hs : m.storeFloCuckoos env fcs = some m') : m'.Wf := by
  induction fcs generalizing m env
  case nil => exact Option.some.inj hs ▸ h
  case cons hi =>
    have ⟨_, hm, hs⟩ := storeFloCuckoos_cons.mp hs
    exact hi (h.storeFloCuckoo hm) hs

variable [Yaml MessageNeighbour] [Yaml MessageDest] {input : InternIn}

def perform (m : Messages) (env : Env) : Write → Option Messages
  | .nothing                         => some m
  | .storeFlo flo                    => (m.storeFlo env flo).map Prod.fst
  | .storeFloCuckoos fcs             => m.storeFloCuckoos env fcs
  | .storeCuckooId rid parent cuckoo => some <| m.mapRealm rid (·.storeCuckooId parent cuckoo)

omit [Yaml MessageNeighbour] in
theorem perform_of_msgRouting {origin : NodeID} {key : U256} {msg : MessageClosest}
    (hs : m.msgRouting env origin key msg = some (m', out)) :
    m.perform env (msg.write key) = some m' := by
  cases msg <;> simp only [msgRouting] at hs
  case storeFlo     => simp [perform, MessageClosest.write, hs]
  case readFlo      => split at hs <;> [split at hs; skip] <;> (cases hs; rfl)
  case getCuckooIds => split at hs <;> (cases hs; rfl)
  case storeCuckooId => cases hs; rfl

omit [Yaml MessageNeighbour] [Yaml MessageDest] in
theorem perform_of_msgDest {msg : MessageDest} (hs : m.msgDest env msg = some (m', out)) :
    m.perform env msg.write = some m' := by
  cases msg
  case floValue =>
    obtain ⟨m₁, hm, hs⟩ := Option.bind_eq_some_iff.mp hs
    cases hs
    exact storeFloCuckoos_cons.mpr ⟨_, hm, rfl⟩
  all_goals
    cases hs
    rfl

omit [Yaml MessageDest] in
theorem perform_of_msgNeighbour {origin : NodeID} {msg : MessageNeighbour}
    (hs : m.msgNeighbour env origin msg = some (m', out)) :
    m.perform env msg.write = some m' := by
  cases msg
  case flos =>
    obtain ⟨_, hm, hs⟩ := Option.map_eq_some_iff.mp hs
    cases hs
    exact hm
  all_goals
    cases hs
    rfl

omit [Yaml MessageDest] in
theorem perform_of_msgDhtStorage {msg : DHTStorageIn}
    (hs : m.msgDhtStorage env msg = some (m', out)) : m.perform env msg.write = some m' := by
  cases msg <;> simp only [msgDhtStorage] at hs
  case storeFlo           => simp [perform, DHTStorageIn.write, hs]
  case getFlos | getRealms => cases hs; rfl
  case readFlo            =>
    split at hs
    case h_1 => cases hs; rfl
    case h_2 =>
      obtain ⟨_, _, hs⟩ := Option.bind_eq_some_iff.mp hs
      cases hs
      rfl
  case readCuckooIds | syncFromNeighbors =>
    obtain ⟨_, _, hs⟩ := Option.bind_eq_some_iff.mp hs
    cases hs
    rfl

-- Only the nodes and the configuration can change besides.
theorem perform_of_message (hs : m.message env input = some (m', out)) :
    ∃ m₁, m.perform env input.write = some m₁ ∧ m'.realms = m₁.realms ∧ m'.ds = m₁.ds := by
  cases input <;> simp only [message] at hs
  case storage       => exact ⟨m', perform_of_msgDhtStorage hs, rfl, rfl⟩
  case propagateFlos => cases hs; exact ⟨m, rfl, rfl, rfl⟩
  case routing msg =>
    cases msg <;> simp only [msgDhtRouter] at hs
    case nodeList    => cases hs; exact ⟨m, rfl, rfl, rfl⟩
    case systemRealm => split at hs <;> (cases hs; exact ⟨m, rfl, rfl, rfl⟩)
    -- The message is for this module, or it is ignored.
    case messageNeighbour =>
      split at hs
      case h_1 hu =>
        refine ⟨m', ?_, rfl, rfl⟩
        simpa only [InternIn.write, hu, Option.elim_some] using perform_of_msgNeighbour hs
      case h_2 hu => cases hs; exact ⟨m, by simp only [InternIn.write, hu]; rfl, rfl, rfl⟩
    case messageDest =>
      split at hs
      case h_1 hu =>
        refine ⟨m', ?_, rfl, rfl⟩
        simpa only [InternIn.write, hu, Option.elim_some] using perform_of_msgDest hs
      case h_2 hu => cases hs; exact ⟨m, by simp only [InternIn.write, hu]; rfl, rfl, rfl⟩
    case messageRouting | messageClosest =>
      split at hs
      case h_1 hu =>
        refine ⟨m', ?_, rfl, rfl⟩
        simpa only [InternIn.write, hu, Option.elim_some] using perform_of_msgRouting hs
      case h_2 hu => cases hs; exact ⟨m, by simp only [InternIn.write, hu]; rfl, rfl, rfl⟩

omit [Yaml MessageNeighbour] [Yaml MessageDest] in
theorem Wf.perform {write : Write} (h : m.Wf) (hs : m.perform env write = some m') : m'.Wf := by
  cases write <;> simp only [Messages.perform, Option.some.injEq] at hs
  case nothing         => exact hs ▸ h
  case storeFloCuckoos => exact h.storeFloCuckoos hs
  case storeCuckooId   => exact hs ▸ h.mapRealm fun hl => (h.hosts hl).storeCuckooId ..
  case storeFlo =>
    obtain ⟨⟨_, _⟩, hs, hm⟩ := Option.map_eq_some_iff.mp hs
    exact hm ▸ h.storeFlo hs

theorem Wf.message (h : m.Wf) (hs : m.message env input = some (m', out)) : m'.Wf := by
  obtain ⟨_, hp, hr, _⟩ := perform_of_message hs
  exact (h.perform hp).congr hr

-- The states of a node which was started with well-formed realms, if with any at all.
inductive Reachable : Messages → Prop
  | new (ds config ourNode) (h : (Messages.new ds config ourNode).Wf) :
    Reachable (.new ds config ourNode)
  | message {m m' : Messages} {env : Env} {input : InternIn} {out : List InternOut} :
    Reachable m → m.message env input = some (m', out) → Reachable m'

theorem Reachable.wf (h : Reachable m) : m.Wf := by
  induction h
  case new h         => exact h
  case message hs hi => exact hi.message hs

end Handlers

end Messages
