import Fledger.DhtStorage.Realms
import Fledger.DhtStorage.Bound

namespace RealmStorage

variable {s s' : RealmStorage} {parent cuckoo : FloID} {cuckoos : List FloID} {flo : Flo}
  {estimated stored : Int} {isNew : Bool}

-- What a storage holds, in whichever order its maps are iterated.
structure View where
  dhtConfig   : DHTConfig
  realmConfig : RealmConfig
  realmId     : RealmID
  root        : U256
  flos        : FloID → Option FloStorage
  distances   : Nat → Option (List FloID)
  size        : Nat

def view (s : RealmStorage) : View where
  dhtConfig   := s.dhtConfig
  realmConfig := s.realmConfig
  realmId     := s.realmId
  root        := s.root
  flos id     := s.flos.lookup id
  distances d := s.distances.lookup d
  size        := s.size

-- The parent is stored, and does not know the cuckoo yet.
def Learns (s : RealmStorage) (parent cuckoo : FloID) : Prop :=
  ∃ fs, s.flos.lookup parent = some fs ∧ cuckoo ∉ fs.cuckoos

theorem storeCuckooId_of_not_learns (h : ¬s.Learns parent cuckoo) :
    s.storeCuckooId parent cuckoo = s := by
  unfold storeCuckooId
  split
  case h_2    => rfl
  case h_1 hl => rw [if_neg fun hc => h ⟨_, hl, hc⟩]

theorem storeCuckooIds_of_not_learns (h : ∀ c ∈ cuckoos, ¬s.Learns parent c) :
    s.storeCuckooIds parent cuckoos = s := by
  unfold storeCuckooIds
  induction cuckoos
  case nil => rfl
  case cons c cuckoos hi =>
    obtain ⟨hc, h⟩ := List.forall_mem_cons.mp h
    rw [List.foldl_cons, storeCuckooId_of_not_learns hc]
    exact hi h

variable [Sha256]

-- Whether `upsert_flo` returns that the flo is new.
def IsNew (s : RealmStorage) (flo : Flo) : Prop :=
  ¬s.oversized flo ∧ ∀ fs, s.flos.lookup flo.floId = some fs → fs.version < flo.version

-- Whether `upsert_flo` changes the storage even if the flo is not new: its parent learns that there is
-- a cuckoo, or there is something to evict.
def Drifts (s : RealmStorage) (flo : Flo) : Prop :=
  ¬s.oversized flo ∧ ((∃ parent, flo.floConfig.cuckooParent = some parent ∧
    s.Learns parent flo.floId) ∨ s.realmConfig.maxSpace < s.size)

theorem isNew_iff (hu : s.Upserts estimated stored flo s' isNew) :
    isNew = true ↔ s.IsNew flo := by
  by_cases ho : s.oversized flo
  case pos => simp [IsNew, ho, (upserts_of_oversized ho).mp hu |>.right]
  case neg =>
    rw [(upserts_iff ho).mp hu |>.left]
    simp only [IsNew, ho, not_false_iff, true_and, Bool.or_eq_true, decide_eq_true_eq]
    cases hl : s.flos.lookup flo.floId
    case none   => simp [HashMap.not_mem_iff_lookup.mpr hl]
    case some fs =>
      have hm : flo.floId ∈ s.flos := HashMap.mem_iff_lookup.mpr ⟨fs, hl⟩
      simp [accepts_adoptCuckoo hl, hm]

theorem eq_of_not_drifts (hu : s.Upserts estimated stored flo s' false) (h : ¬s.Drifts flo) :
    s' = s := by
  by_cases ho : s.oversized flo
  case pos => exact (upserts_of_oversized ho).mp hu |>.left
  case neg =>
    simp only [Drifts, ho, not_false_iff, true_and, not_or, not_exists, not_and, Nat.not_lt] at h
    obtain ⟨hc, hl⟩ := h
    obtain ⟨hn, ht⟩ := (upserts_iff ho).mp hu
    have ha : s.adoptCuckoo flo = s := by
      unfold adoptCuckoo
      split
      case h_1 hp => exact storeCuckooId_of_not_learns <| hc _ hp
      case h_2    => rfl
    have hacc : s.accepts estimated flo = false := by
      rw [ha] at hn
      exact (Bool.or_eq_false_iff.mp hn.symm).left
    rw [taken, ha, hacc] at ht
    exact Queue.Trims.eq_of_le ht hl

end RealmStorage

namespace Messages

section Persist

variable [Yaml (HashMap RealmID RealmStorage)] {realms realms' : HashMap RealmID RealmStorage}
  {m m' : Messages} {unsaved unsaved' : Prop}

def views (realms : HashMap RealmID RealmStorage) (rid : RealmID) : Option RealmStorage.View :=
  (realms.lookup rid).map RealmStorage.view

-- What is saved is read as the realms of the module.
def Saved (m : Messages) : Prop :=
  ∃ str read, m.ds.lookup dhtStorageName = some str ∧ Yaml.fromStr str = some read ∧
    views read = views m.realms

-- The realms are read back as they were written, in whichever order this happens.
def Readable (realms : HashMap RealmID RealmStorage) : Prop :=
  ∀ realms', views realms' = views realms → ∃ str read, Yaml.toString realms' = some str ∧
    Yaml.fromStr str = some read ∧ views read = views realms'

-- Unless there are unsaved changes, the realms are what has been written last.
def Tracks (m : Messages) (unsaved : Prop) : Prop :=
  ¬unsaved → ∃ written, views written = views m.realms ∧
    ∀ str, Yaml.toString written = some str → m.ds.lookup dhtStorageName = some str

theorem Tracks.congr (h : m.Tracks unsaved) (hu : unsaved → unsaved')
    (hv : ¬unsaved' → views m'.realms = views m.realms) (hd : m'.ds = m.ds) :
    m'.Tracks unsaved' := by
  intro hn
  obtain ⟨written, hw, hs⟩ := h (mt hu hn)
  exact ⟨written, hw.trans (hv hn).symm, hd ▸ hs⟩

theorem lookup_store {str : String} (h : Yaml.toString m.realms = some str) :
    m.store.ds.lookup dhtStorageName = some str := by
  simp only [store, h]
  exact AList.lookup_insert _

theorem tracks_store (m : Messages) (unsaved : Prop) : m.store.Tracks unsaved :=
  fun _ => ⟨m.realms, congrArg views (store_realms m).symm, fun _ hs => lookup_store hs⟩

theorem Tracks.saved (h : m.Tracks unsaved) (hu : ¬unsaved) (hr : Readable m.realms) : m.Saved := by
  obtain ⟨written, hw, hs⟩ := h hu
  obtain ⟨str, read, ht, hf, hv⟩ := hr written hw
  exact ⟨str, read, hs str ht, hf, hv.trans hw⟩

-- A node which is started with what is saved resumes.
theorem Saved.resumes (h : m.Saved) (config : DHTConfig) (ourNode : NodeID) :
    views (new m.ds config ourNode).realms = views m.realms := by
  obtain ⟨str, read, hs, hf, hv⟩ := h
  rw [new, store_realms, hs, Option.getD_some, hf, Option.getD_some, hv]

omit [Yaml (HashMap RealmID RealmStorage)] in
theorem ds_mapRealm {rid : RealmID} {g : RealmStorage → RealmStorage} :
    (m.mapRealm rid g).ds = m.ds :=
  rfl

omit [Yaml (HashMap RealmID RealmStorage)] in
theorem views_mapRealm {rid : RealmID} {g : RealmStorage → RealmStorage}
    (h : ∀ s, m.realms.lookup rid = some s → g s = s) :
    views (m.mapRealm rid g).realms = views m.realms := by
  funext i
  rw [views, views, mapRealm, HashMap.lookup_modify]
  split
  case isFalse   => rfl
  case isTrue hi =>
    rw [hi]
    cases hl : m.realms.lookup rid
    case none   => rfl
    case some s => rw [Option.map_some, h s hl]

end Persist

variable [Sha256] [RealmReader] {m m' : Messages} {env : Env} {flo : Flo} {fcs : List FloCuckoo}
  {out : List InternOut} {isNew : Bool} {unsaved : Prop}

-- Whether the flo is new to the module, in which case everything is saved.
def IsNew (m : Messages) (flo : Flo) : Prop :=
  (∀ s, m.realms.lookup flo.realm = some s → s.IsNew flo) ∧
  (m.realms.lookup flo.realm = none → m.config.acceptsRealm flo.realm = true ∧
    ∃ object, FloRealm.tryFrom flo = .ok { flo, object })

-- Whether there are unsaved changes once the flo has been taken, ...
def unsavedFlo (m : Messages) (flo : Flo) (unsaved : Prop) : Prop :=
  ¬m.IsNew flo ∧ (unsaved ∨ ∃ s, m.realms.lookup flo.realm = some s ∧ s.Drifts flo)

-- ... once cuckoos have been recorded, ...
def unsavedCuckoos (m : Messages) (rid : RealmID) (parent : FloID) (cuckoos : List FloID)
    (unsaved : Prop) : Prop :=
  unsaved ∨ ∃ s, m.realms.lookup rid = some s ∧ ∃ c ∈ cuckoos, s.Learns parent c

section Handlers

variable [Yaml (HashMap RealmID RealmStorage)] [Yaml MessageClosest]

-- ... and once flos have been taken together with their cuckoos.
def unsavedFloCuckoos (m : Messages) (env : Env) (unsaved : Prop) : List FloCuckoo → Prop
  | []                    => unsaved
  | (flo, cuckoos) :: fcs => ∃ m₁ out, m.storeFlo env flo = some (m₁, out) ∧
    unsavedFloCuckoos (m₁.mapRealm flo.realm (·.storeCuckooIds flo.floId cuckoos)) env.next
      (m₁.unsavedCuckoos flo.realm flo.floId cuckoos (m.unsavedFlo flo unsaved)) fcs

def unsavedWrite (m : Messages) (env : Env) : Write → Prop
  | .nothing                         => False
  | .storeFlo flo                    => m.unsavedFlo flo False
  | .storeFloCuckoos fcs             => m.unsavedFloCuckoos env False fcs
  | .storeCuckooId rid parent cuckoo => m.unsavedCuckoos rid parent [cuckoo] False

omit [Yaml (HashMap RealmID RealmStorage)] [Yaml MessageClosest] in
theorem Takes.isNew_iff (ht : m.Takes env flo m' isNew) : isNew = true ↔ m.IsNew flo := by
  cases ht
  case known hl hu      => simp [IsNew, hl, RealmStorage.isNew_iff hu]
  case created hl hp ha => simp [IsNew, hl, ha, hp]
  case ignored hl hr    =>
    simp only [Bool.false_eq_true, IsNew, hl, reduceCtorEq, false_implies, implies_true, true_and,
      forall_const, false_iff, not_and, not_exists]
    exact fun ha object hp => by simp [hr object hp] at ha

omit [Yaml (HashMap RealmID RealmStorage)] [Yaml MessageClosest] in
theorem Takes.views_eq (ht : m.Takes env flo m' false)
    (h : ∀ s, m.realms.lookup flo.realm = some s → ¬s.Drifts flo) :
    views m'.realms = views m.realms := by
  cases ht
  case ignored => rfl
  case known s s' hl hu =>
    funext i
    rw [RealmStorage.eq_of_not_drifts hu (h s hl), views, views, insertRealm,
      HashMap.lookup_insert_eq]
    split
    case isTrue hi => rw [hi, hl]
    case isFalse   => rfl

theorem Tracks.storeFlo (h : m.Tracks unsaved) (hs : m.storeFlo env flo = some (m', out)) :
    m'.Tracks (m.unsavedFlo flo unsaved) := by
  obtain ⟨m₁, isNew, ht, rfl, _⟩ := storeFlo_eq_some.mp hs
  have ht := takes_of_takeFlo ht
  split
  case isTrue => exact tracks_store _ _
  case isFalse hn =>
    have hnot : ¬m.IsNew flo := ht.isNew_iff.not.mp hn
    refine h.congr (fun hu => ⟨hnot, .inl hu⟩) (fun hu => ?_) (by cases ht <;> rfl)
    rw [Bool.not_eq_true] at hn
    exact (hn ▸ ht).views_eq fun s hl hd => hu ⟨hnot, .inr ⟨s, hl, hd⟩⟩

omit [Sha256] [RealmReader] [Yaml MessageClosest] in
theorem Tracks.storeCuckooIds (h : m.Tracks unsaved) (rid : RealmID) (parent : FloID)
    (cuckoos : List FloID) : (m.mapRealm rid (·.storeCuckooIds parent cuckoos)).Tracks
      (m.unsavedCuckoos rid parent cuckoos unsaved) := by
  refine h.congr .inl (fun hu => views_mapRealm fun s hl => ?_) rfl
  exact RealmStorage.storeCuckooIds_of_not_learns fun c hc hlearns =>
    hu <| .inr ⟨s, hl, c, hc, hlearns⟩

theorem Tracks.storeFloCuckoos (h : m.Tracks unsaved)
    (hs : m.storeFloCuckoos env fcs = some m') :
    m'.Tracks (m.unsavedFloCuckoos env unsaved fcs) := by
  induction fcs generalizing m env unsaved
  case nil => cases hs; exact h
  case cons fc fcs hi =>
    obtain ⟨flo, cuckoos⟩ := fc
    obtain ⟨m₂, hm, hs⟩ := storeFloCuckoos_cons.mp hs
    obtain ⟨⟨m₁, out⟩, hflo, hm⟩ := Option.bind_eq_some_iff.mp hm
    cases hm
    have hi := hi ((h.storeFlo hflo).storeCuckooIds flo.realm flo.floId cuckoos) hs
    exact hi.congr (fun hu => ⟨m₁, out, hflo, hu⟩) (fun _ => rfl) rfl

theorem Tracks.perform {write : Write} (h : m.Tracks False) (hs : m.perform env write = some m') :
    m'.Tracks (m.unsavedWrite env write) := by
  cases write <;> simp only [Messages.perform, Option.some.injEq] at hs
  case nothing         => exact hs ▸ h
  case storeFloCuckoos => exact h.storeFloCuckoos hs
  case storeCuckooId rid parent cuckoo => exact hs ▸ h.storeCuckooIds rid parent [cuckoo]
  case storeFlo =>
    obtain ⟨⟨_, _⟩, hflo, rfl⟩ := Option.map_eq_some_iff.mp hs
    exact h.storeFlo hflo

variable [Yaml MessageNeighbour] [Yaml MessageDest] {input : InternIn}

-- Whether the handler of the input leaves changes which are not saved.
def Forgets (m : Messages) (env : Env) (input : InternIn) : Prop :=
  m.unsavedWrite env input.write

theorem message_storeFlo : m.message env (.storage (.storeFlo flo)) = m.storeFlo env flo :=
  rfl

theorem not_forgets_storeFlo (h : m.IsNew flo) : ¬m.Forgets env (.storage (.storeFlo flo)) :=
  fun hf => hf.left h

theorem message_storeCuckooId {origin lastHop : NodeID} {key : U256} {msg : NetworkWrapper}
    {gid : GlobalID} (hu : msg.unwrapYaml MessageClosest dhtStorageName = some (.storeCuckooId gid)) :
    m.message env (.routing (.messageClosest origin lastHop key msg)) =
      some (m.mapRealm gid.realmId (·.storeCuckooId key gid.floId), []) := by
  simp only [message, msgDhtRouter, hu, msgRouting]

theorem Tracks.message (h : m.Tracks False) (hs : m.message env input = some (m', out)) :
    m'.Tracks (m.Forgets env input) := by
  obtain ⟨m₁, hp, hr, hd⟩ := perform_of_message hs
  exact (h.perform hp).congr id (fun _ => congrArg views hr) hd

-- The states of the runs in which no handler leaves changes which are not saved.
inductive Mindful : Messages → Prop
  | new (ds config ourNode) : Mindful (.new ds config ourNode)
  | message {m m' : Messages} {env : Env} {input : InternIn} {out : List InternOut} :
    Mindful m → m.message env input = some (m', out) → ¬m.Forgets env input → Mindful m'

theorem Mindful.tracks (h : Mindful m) : m.Tracks False := by
  induction h
  case new => exact tracks_store _ _
  case message hs hn hi => exact (hi.message hs).congr (absurd · hn) (fun _ => rfl) rfl

-- In such a run, what is saved is always up to date.
theorem Mindful.durable (h : Mindful m) (hr : Readable m.realms) : m.Saved ∧
    ∀ config ourNode, views (Messages.new m.ds config ourNode).realms = views m.realms := by
  have hs := h.tracks.saved not_false hr
  exact ⟨hs, hs.resumes⟩

end Handlers

end Messages

namespace Messages

open RealmStorage

attribute [local instance] Sha256.rolling

-- A realm with its flo only, with one more flo, and with a cuckoo of its flo.
def keptFlo : Flo :=
  .sample roomy.realmId 1 5

def plainRealms : HashMap RealmID RealmStorage :=
  AList.insert roomy.realmId roomy ∅

def pagedRealms : HashMap RealmID RealmStorage :=
  AList.insert roomy.realmId (roomy.taken 0 0 keptFlo) plainRealms

def linkedRealms : HashMap RealmID RealmStorage :=
  HashMap.modify plainRealms roomy.realmId (·.storeCuckooId roomy.realmId keptFlo.floId)

def cuckooLists (realms : HashMap RealmID RealmStorage) :
    Option (Option (List FloID) × Option (List FloID)) :=
  (realms.lookup roomy.realmId).map fun s =>
    (s.getCuckooIds roomy.realmId, s.getCuckooIds keptFlo.floId)

theorem cuckooLists_congr {realms realms' : HashMap RealmID RealmStorage}
    (h : views realms = views realms') : cuckooLists realms = cuckooLists realms' := by
  have h := congrArg (Option.map fun v => ((v.flos roomy.realmId).map FloStorage.cuckoos,
    (v.flos keptFlo.floId).map FloStorage.cuckoos)) (congrFun h roomy.realmId)
  simp only [views, Option.map_map] at h
  exact h

-- The realms, by the name of what they hold.
def nameRealms (realms : HashMap RealmID RealmStorage) : Option String :=
  if cuckooLists realms = cuckooLists plainRealms then some "plain"
  else if cuckooLists realms = cuckooLists pagedRealms then some "paged"
  else if cuckooLists realms = cuckooLists linkedRealms then some "linked"
  else none

abbrev namedRealms : Yaml (HashMap RealmID RealmStorage) where
  toString  := nameRealms
  fromStr s :=
    if s = "plain" then some plainRealms
    else if s = "paged" then some pagedRealms
    else if s = "linked" then some linkedRealms
    else none

abbrev namedClosest : Yaml MessageClosest where
  toString
    | .storeFlo _      => some "StoreFlo"
    | .storeCuckooId _ => some "StoreCuckooID"
    | _                => none
  fromStr s :=
    if s = "StoreFlo" then some (.storeFlo keptFlo)
    else if s = "StoreCuckooID" then some (.storeCuckooId keptFlo.globalId)
    else none

abbrev unnamedDest : Yaml MessageDest where
  toString _ := none
  fromStr _  := none

abbrev unnamedNeighbour : Yaml MessageNeighbour where
  toString _ := none
  fromStr _  := none

abbrev unnamedRealm : RealmReader where
  fromRmpBytes _ := none

attribute [local instance] namedRealms namedClosest unnamedDest unnamedNeighbour unnamedRealm

theorem readable_named (name : String) {realms : HashMap RealmID RealmStorage}
    (ht : Yaml.toString realms = some name) (hf : Yaml.fromStr name = some realms) :
    Readable realms := by
  intro realms' hv
  refine ⟨name, realms, ?_, hf, hv.symm⟩
  rw [← ht]
  simp only [Yaml.toString, nameRealms, cuckooLists_congr hv]

def keepingEnv : Env where
  fuel          := 1
  now _         := 0
  rnd           := .zero
  evilNoForward := false

-- A node which was started with the plain realms.
def keeping : Messages :=
  .new (AList.insert dhtStorageName "plain" ∅) {} .zero

theorem mindful_keeping : Mindful keeping :=
  .new (AList.insert dhtStorageName "plain" ∅) {} .zero

theorem read_plain : (Yaml.fromStr "plain" : Option (HashMap RealmID RealmStorage)) =
    some plainRealms :=
  rfl

theorem write_plain : Yaml.toString plainRealms = some "plain" := by
  decide +kernel

theorem keeping_realms : keeping.realms = plainRealms := by
  rw [keeping, Messages.new, store_realms, AList.lookup_insert, Option.getD_some, read_plain,
    Option.getD_some]

theorem readable_plain : Readable plainRealms :=
  readable_named "plain" write_plain read_plain

theorem keeping_ds : keeping.ds.lookup dhtStorageName = some "plain" := by
  rw [keeping, Messages.new]
  refine lookup_store ?_
  rw [AList.lookup_insert, Option.getD_some, read_plain, Option.getD_some]
  exact write_plain

theorem keeping_lookup : keeping.realms.lookup roomy.realmId = some roomy := by
  rw [keeping_realms]
  exact AList.lookup_insert ∅

theorem keeping_isNew : keeping.IsNew keptFlo := by
  have hl : keeping.realms.lookup keptFlo.realm = some roomy := keeping_lookup
  have hn : roomy.flos.lookup keptFlo.floId = none :=
    HashMap.not_mem_iff_lookup.mp (by decide +kernel)
  have hnew : roomy.IsNew keptFlo := ⟨by decide +kernel, fun fs hfs => by simp [hn] at hfs⟩
  refine ⟨fun s hs => ?_, fun hs => by simp [hl] at hs⟩
  rw [hl, Option.some.injEq] at hs
  exact hs ▸ hnew

-- The node stores a new flo.
theorem durable_paged : ∃ m out, keeping.message keepingEnv (.storage (.storeFlo keptFlo)) =
    some (m, out) ∧ m.Saved ∧
      ∀ config ourNode, views (Messages.new m.ds config ourNode).realms = views m.realms := by
  have hs : (keeping.storeFlo keepingEnv keptFlo).isSome = true := by decide +kernel
  obtain ⟨⟨m, out⟩, hs⟩ := Option.isSome_iff_exists.mp hs
  rw [← message_storeFlo] at hs
  have hm : Mindful m := mindful_keeping.message hs <| not_forgets_storeFlo keeping_isNew
  obtain ⟨m₁, isNew, ht, hr, -⟩ := takes_of_storeFlo hs
  have hr : m.realms = pagedRealms := by
    rw [hr]
    have hl : keeping.realms.lookup keptFlo.realm = some roomy := keeping_lookup
    cases ht
    case created hn _ _ => simp [hl] at hn
    case ignored hn _   => simp [hl] at hn
    case known s s' hl' hu =>
      rw [hl, Option.some.injEq] at hl'
      subst hl'
      have ht := (upserts_iff (by decide +kernel)).mp hu |>.right
      rw [Queue.Trims.eq_of_le ht (by decide +kernel), insertRealm, keeping_realms]
      rfl
  refine ⟨m, out, hs, hm.durable ?_⟩
  rw [hr]
  exact readable_named "paged" (by decide +kernel) rfl

-- A cuckoo which another node reports is not saved.
theorem linked_not_saved : ∃ m, keeping.message keepingEnv (.routing (.messageClosest .zero .zero
      roomy.realmId { moduleName := dhtStorageName, msg := "StoreCuckooID" })) = some (m, []) ∧
    Reachable keeping ∧ Readable keeping.realms ∧ Readable m.realms ∧ ¬m.Saved := by
  have hu : NetworkWrapper.unwrapYaml MessageClosest
      { moduleName := dhtStorageName, msg := "StoreCuckooID" } dhtStorageName =
      some (.storeCuckooId ⟨roomy.realmId, keptFlo.floId⟩) := rfl
  have hr : (keeping.mapRealm roomy.realmId (·.storeCuckooId roomy.realmId keptFlo.floId)).realms =
      linkedRealms := by
    rw [mapRealm, keeping_realms, linkedRealms]
  refine ⟨_, message_storeCuckooId hu, ?_, ?_, ?_, ?_⟩
  case refine_1 =>
    refine .new _ _ _ ⟨fun {rid s} hl => ?_⟩
    rw [← keeping, keeping_realms, plainRealms, HashMap.lookup_insert_eq] at hl
    split at hl
    case isFalse   => simp at hl
    case isTrue hi => exact Option.some.inj hl ▸ hi ▸ hosts_new ..
  case refine_2 => exact keeping_realms ▸ readable_plain
  case refine_3 => exact hr ▸ readable_named "linked" (by decide +kernel) rfl
  case refine_4 =>
    rintro ⟨str, read, hs, hf, hv⟩
    rw [ds_mapRealm, keeping_ds, Option.some.injEq] at hs
    subst hs
    rw [read_plain, Option.some.injEq] at hf
    subst hf
    have hne : cuckooLists plainRealms ≠ cuckooLists linkedRealms := by decide +kernel
    exact hne <| cuckooLists_congr (hr ▸ hv)

end Messages
