import Fledger.DhtStorage.Config
import Fledger.DhtStorage.Sync

namespace RealmStorage

variable [Sha256] [RealmReader] {s s' : RealmStorage} {rid : RealmID} {flo : Flo} {fs : FloStorage}
  {estimated stored : Int} {isNew : Bool}

-- The flo of the realm is stored under the id of the realm, and all flos belong to the realm.
structure Anchored (s : RealmStorage) (rid : RealmID) : Prop where
  realmId : s.realmId = rid
  realm   : ∀ {id fs}, s.flos.lookup id = some fs → fs.flo.realm = rid
  anchor  : ∃ fs, s.flos.lookup rid = some fs ∧ fs.flo.floId = rid ∧ Messages.Opens fs.flo

theorem Hosts.anchored_iff (h : s.Hosts rid) : s.Anchored rid ↔
    ∃ flo, (s.flos.lookup rid).map FloStorage.flo = some flo ∧ Messages.Opens flo := by
  constructor
  case mp =>
    intro ha
    have ⟨fs, hl, _, ho⟩ := ha.anchor
    exact ⟨fs.flo, congrArg _ hl, ho⟩
  case mpr =>
    intro ⟨flo, hf, ho⟩
    have ⟨fs, hl, hf⟩ := Option.map_eq_some_iff.mp hf
    exact ⟨h.realmId, h.realm, fs, hl, h.reachable.wf.keyed hl, hf ▸ ho⟩

-- The flo of the realm is only lost to a newer version which is not a realm.
theorem Anchored.upserts_iff (ha : s.Anchored rid) (h : s.Hosts rid) (hr : flo.realm = rid)
    (hu : s.Upserts estimated stored flo s' isNew) : s'.Anchored rid ↔
      ((Op.upsertFlo estimated stored flo).Renews s rid → Messages.Opens flo) := by
  have ⟨fs, hl, _, ho⟩ := ha.anchor
  have hd : (Op.upsertFlo estimated stored flo).Does s s' := ⟨isNew, hu⟩
  have hf := hd.flo_realmId h.reachable.wf (h.realmId ▸ hl)
  rw [h.realmId] at hf
  rw [(h.upserts hr hu).anchored_iff]
  cases hf
  case inl hf => exact iff_of_true ⟨fs.flo, hf.right, ho⟩ (absurd · hf.left)
  case inr hf =>
    obtain ⟨_, _, _, he, hrenews, hf⟩ := hf
    cases he
    simp [hf, hrenews]

theorem Anchored.storeCuckooIds (ha : s.Anchored rid) (h : s.Hosts rid) (parent : FloID)
    (cuckoos : List FloID) : (s.storeCuckooIds parent cuckoos).Anchored rid := by
  rw [(h.storeCuckooIds parent cuckoos).anchored_iff, flo_storeCuckooIds]
  exact h.anchored_iff.mp ha

theorem anchored_new_iff {dhtConfig : DHTConfig} {root : NodeID} {now : Int} {realm : FloRealm}
    (ho : Messages.Opens realm.flo) :
    (RealmStorage.new dhtConfig root now realm).Anchored realm.flo.realm ↔
      realm.flo.floId = realm.flo.realm := by
  rw [(hosts_new dhtConfig root now realm).anchored_iff, RealmStorage.new, lookup_put]
  split
  case isTrue he  => exact iff_of_true ⟨realm.flo, rfl, ho⟩ he.symm
  case isFalse he => simp [Ne.symm he]

end RealmStorage

namespace Messages

variable [Sha256] [RealmReader] {m m' m₁ : Messages} {env : Env} {flo : Flo} {rid : RealmID}
  {isNew : Bool} {fc : FloCuckoo} {fcs : List FloCuckoo} {out : List InternOut}
  {s s' : RealmStorage}

def Anchored (m : Messages) : Prop :=
  ∀ rid s, m.realms.lookup rid = some s → s.Anchored rid

-- The flo opens a realm under another id than its own, or it replaces the flo of its realm although
-- it is not one itself.
def Misplaces (m : Messages) (env : Env) (flo : Flo) : Prop :=
  match m.realms.lookup flo.realm with
  | some s =>
    (RealmStorage.Op.upsertFlo (env.now 0) (env.now 1) flo).Renews s flo.realm ∧ ¬Opens flo
  | none   => Opens flo ∧ m.config.acceptsRealm flo.realm = true ∧ flo.floId ≠ flo.realm

theorem Anchored.insertRealm_iff (ha : m.Anchored) :
    (m.insertRealm rid s).Anchored ↔ s.Anchored rid := by
  constructor
  case mp  => exact fun h => h rid s <| AList.lookup_insert _
  case mpr =>
    intro hs i s' hl
    rw [insertRealm, HashMap.lookup_insert_eq] at hl
    split at hl
    case isTrue hi => exact Option.some.inj hl ▸ hi ▸ hs
    case isFalse   => exact ha i s' hl

theorem Takes.anchored_iff (ht : m.Takes env flo m' isNew) (hw : m.Wf) (ha : m.Anchored) :
    m'.Anchored ↔ ¬m.Misplaces env flo := by
  cases ht
  case known s s' hl hu =>
    rw [ha.insertRealm_iff, (ha _ _ hl).upserts_iff (hw.hosts hl) rfl hu, Misplaces, hl,
      not_and_not_right]
  case created object hl hp hacc =>
    have ho : Opens flo := ⟨object, hp⟩
    rw [ha.insertRealm_iff, RealmStorage.anchored_new_iff ho, Misplaces, hl]
    simp [ho, hacc]
  case ignored hl hr =>
    refine iff_of_true ha fun hm => ?_
    rw [Misplaces, hl] at hm
    obtain ⟨⟨object, hp⟩, hacc, _⟩ := hm
    cases (hr object hp).symm.trans hacc

theorem Anchored.congr (ha : m.Anchored) (hr : m'.realms = m.realms) : m'.Anchored :=
  fun rid s hl => ha rid s (hr ▸ hl)

theorem Anchored.storeCuckooIds (ha : m.Anchored) (hw : m.Wf) (rid : RealmID) (parent : FloID)
    (cuckoos : List FloID) : (m.mapRealm rid (·.storeCuckooIds parent cuckoos)).Anchored := by
  intro i s hl
  rw [mapRealm, HashMap.lookup_modify] at hl
  split at hl
  case isFalse   => exact ha i s hl
  case isTrue hi =>
    obtain ⟨_, hl, hs⟩ := Option.map_eq_some_iff.mp hl
    exact hs ▸ hi ▸ (ha _ _ hl).storeCuckooIds (hw.hosts hl) parent cuckoos

omit [Sha256] [RealmReader] in
theorem mem_insertRealm (hm : rid ∈ m.realms) (i : RealmID) (s : RealmStorage) :
    rid ∈ (m.insertRealm i s).realms :=
  AList.mem_insert _ |>.mpr (.inr hm)

-- No realm is ever dropped.
theorem Takes.mem_realms (ht : m.Takes env flo m' isNew) (hm : rid ∈ m.realms) :
    rid ∈ m'.realms := by
  cases ht
  case known | created => exact mem_insertRealm hm ..
  case ignored         => exact hm

section Handlers

variable [Yaml (HashMap RealmID RealmStorage)] [Yaml MessageClosest]

theorem Anchored.storeFlo (ha : m.Anchored) (hw : m.Wf) (hs : m.storeFlo env flo = some (m', out))
    (hn : ¬m.Misplaces env flo) : m'.Anchored := by
  have ⟨_, _, ht, hr, _⟩ := takes_of_storeFlo hs
  exact ((ht.anchored_iff hw ha).mpr hn).congr hr

theorem Anchored.storeFloCuckoo (ha : m.Anchored) (hw : m.Wf)
    (hs : m.storeFloCuckoo env fc = some m') (hn : ¬m.Misplaces env fc.1) : m'.Anchored := by
  have ⟨_, _, ht, _, hr⟩ := takes_of_storeFloCuckoo hs
  have ha := (ht.anchored_iff hw ha).mpr hn
  exact (ha.storeCuckooIds (hw.takes ht) _ _ _).congr hr

theorem mem_realms_of_storeFlo (hs : m.storeFlo env flo = some (m', out)) (hm : rid ∈ m.realms) :
    rid ∈ m'.realms := by
  have ⟨_, _, ht, hr, _⟩ := takes_of_storeFlo hs
  exact hr ▸ ht.mem_realms hm

theorem mem_realms_of_storeFloCuckoo (hs : m.storeFloCuckoo env fc = some m')
    (hm : rid ∈ m.realms) : rid ∈ m'.realms := by
  have ⟨m₁, _, ht, _, hr⟩ := takes_of_storeFloCuckoo hs
  exact hr ▸ (grows_storeCuckooIds m₁ ..).realms (ht.mem_realms hm)

-- Whether one of the flos is misplaced when it is its turn.
def misplacesFloCuckoos (m : Messages) (env : Env) : List FloCuckoo → Prop
  | []        => False
  | fc :: fcs => m.Misplaces env fc.1 ∨
    ∃ m', m.storeFloCuckoo env fc = some m' ∧ m'.misplacesFloCuckoos env.next fcs

def misplacesWrite (m : Messages) (env : Env) : Write → Prop
  | .storeFlo flo        => m.Misplaces env flo
  | .storeFloCuckoos fcs => m.misplacesFloCuckoos env fcs
  | _                    => False

theorem Anchored.storeFloCuckoos (ha : m.Anchored) (hw : m.Wf)
    (hs : m.storeFloCuckoos env fcs = some m') (hn : ¬m.misplacesFloCuckoos env fcs) :
    m'.Anchored := by
  induction fcs generalizing m env
  case nil => exact Option.some.inj hs ▸ ha
  case cons fc fcs hi =>
    have ⟨m₁, h₁, hs⟩ := storeFloCuckoos_cons.mp hs
    have ha := ha.storeFloCuckoo hw h₁ fun hm => hn (.inl hm)
    exact hi ha (hw.storeFloCuckoo h₁) hs fun hm => hn (.inr ⟨m₁, h₁, hm⟩)

theorem mem_realms_of_storeFloCuckoos (hs : m.storeFloCuckoos env fcs = some m')
    (hm : rid ∈ m.realms) : rid ∈ m'.realms := by
  induction fcs generalizing m env
  case nil => exact Option.some.inj hs ▸ hm
  case cons hi =>
    have ⟨_, h₁, hs⟩ := storeFloCuckoos_cons.mp hs
    exact hi hs (mem_realms_of_storeFloCuckoo h₁ hm)

theorem Anchored.perform {write : Write} (ha : m.Anchored) (hw : m.Wf)
    (hs : m.perform env write = some m') (hn : ¬m.misplacesWrite env write) : m'.Anchored := by
  cases write <;> simp only [Messages.perform, Option.some.injEq] at hs
  case nothing         => exact hs ▸ ha
  case storeFloCuckoos => exact ha.storeFloCuckoos hw hs hn
  case storeCuckooId rid parent cuckoo => exact hs ▸ ha.storeCuckooIds hw rid parent [cuckoo]
  case storeFlo =>
    obtain ⟨⟨_, _⟩, hs, hm⟩ := Option.map_eq_some_iff.mp hs
    exact hm ▸ ha.storeFlo hw hs hn

theorem mem_realms_of_perform {write : Write} (hs : m.perform env write = some m')
    (hm : rid ∈ m.realms) : rid ∈ m'.realms := by
  cases write <;> simp only [Messages.perform, Option.some.injEq] at hs
  case nothing         => exact hs ▸ hm
  case storeFloCuckoos => exact mem_realms_of_storeFloCuckoos hs hm
  case storeCuckooId i parent cuckoo =>
    exact hs ▸ (grows_storeCuckooIds m i parent [cuckoo]).realms hm
  case storeFlo =>
    obtain ⟨⟨_, _⟩, hs, he⟩ := Option.map_eq_some_iff.mp hs
    exact he ▸ mem_realms_of_storeFlo hs hm

variable [Yaml MessageNeighbour] [Yaml MessageDest] {input : InternIn}

theorem Anchored.message (ha : m.Anchored) (hw : m.Wf)
    (hs : m.message env input = some (m', out)) (hn : ¬m.misplacesWrite env input.write) :
    m'.Anchored := by
  have ⟨_, hp, hr, _⟩ := perform_of_message hs
  exact (ha.perform hw hp hn).congr hr

theorem mem_realms_of_message (hs : m.message env input = some (m', out)) (hm : rid ∈ m.realms) :
    rid ∈ m'.realms := by
  have ⟨_, hp, hr, _⟩ := perform_of_message hs
  exact hr ▸ mem_realms_of_perform hp hm

-- The states of the runs, from an empty store, in which no flo is misplaced.
inductive Orderly : Messages → Prop
  | new (ds config ourNode) (h : (Messages.new ds config ourNode).realms = ∅) :
    Orderly (.new ds config ourNode)
  | message {m m' : Messages} {env : Env} {input : InternIn} {out : List InternOut} :
    Orderly m → m.message env input = some (m', out) → ¬m.misplacesWrite env input.write →
    Orderly m'

theorem Orderly.reachable (h : Orderly m) : Reachable m := by
  induction h
  case new ds config ourNode h =>
    refine .new ds config ourNode ⟨fun hl => ?_⟩
    rw [h] at hl
    cases hl
  case message hs _ hi => exact .message hi hs

theorem Orderly.anchored (h : Orderly m) : m.Anchored := by
  induction h
  case new ds config ourNode h =>
    intro rid s hl
    rw [h] at hl
    cases hl
  case message ho hs hn ha => exact ha.message ho.reachable.wf hs hn

-- In such a run each realm has its flo, and keeps it.
theorem Orderly.keeps_realms (h : Orderly m) : m.Anchored ∧
    ∀ env input m' out, m.message env input = some (m', out) → ∀ rid ∈ m.realms, rid ∈ m'.realms :=
  ⟨h.anchored, fun _ _ _ _ hs _ hm => mem_realms_of_message hs hm⟩

end Handlers

end Messages

namespace Messages

open Sync

attribute [local instance] Sha256.rolling
attribute [local instance] sharedReader sharedRealms sharedYaml sharedClosest sharedDest

-- The state after the flo has been stored.
def storing (flo : Flo) : Messages :=
  ((joining.storeFlo sharedEnv flo).map Prod.fst).getD joining

theorem message_storing {flo : Flo} (h : (joining.storeFlo sharedEnv flo).isSome = true) :
    ∃ out, joining.message sharedEnv (.storage (.storeFlo flo)) = some (storing flo, out) := by
  have ⟨⟨m, out⟩, hs⟩ := Option.isSome_iff_exists.mp h
  have he : storing flo = m := by rw [storing, hs, Option.map_some, Option.getD_some]
  exact ⟨out, he ▸ hs⟩

theorem orderly_storing : Orderly (storing sharedFlo) := by
  have hj : Orderly joining := .new ∅ {} .zero joining_realms
  have hsome : (joining.storeFlo sharedEnv sharedFlo).isSome = true := by decide +kernel
  have ⟨_, hs⟩ := message_storing hsome
  refine hj.message hs fun hm => ?_
  have hm : joining.Misplaces sharedEnv sharedFlo := hm
  rw [Misplaces, joining_realms] at hm
  exact hm.right.right sharedFlo_realm.symm

theorem keeps_realms_storing : (storing sharedFlo).Anchored ∧
    ∀ env input m' out, (storing sharedFlo).message env input = some (m', out) →
      ∀ rid ∈ (storing sharedFlo).realms, rid ∈ m'.realms :=
  orderly_storing.keeps_realms

-- The flo of a realm with another id than its own.
def strayFlo : Flo :=
  { Flo.sample .zero 0 5 with floType := "flmodules::flo::realm::Realm" }

-- The realm is there without its flo, although the flo has just been stored.
theorem storing_not_anchored : joining = .new ∅ {} .zero ∧ joining.realms = ∅ ∧
    (∃ out, joining.message sharedEnv (.storage (.storeFlo strayFlo)) =
      some (storing strayFlo, out)) ∧ ¬(storing strayFlo).Anchored ∧
    ∃ s, (storing strayFlo).realms.lookup .zero = some s ∧ s.flos.lookup .zero = none := by
  have hs : ((storing strayFlo).realms.lookup .zero).map (fun s => (s.flos.lookup .zero).isNone) =
      some true := by decide +kernel
  have ⟨s, hl, hn⟩ := Option.map_eq_some_iff.mp hs
  have hn : s.flos.lookup .zero = none := Option.isNone_iff_eq_none.mp hn
  refine ⟨rfl, joining_realms, message_storing (by decide +kernel), fun ha => ?_, s, hl, hn⟩
  have ⟨_, hf, _⟩ := (ha _ s hl).anchor
  cases hn.symm.trans hf

end Messages
