import Fledger.DhtStorage.Cuckoos
import Fledger.DhtStorage.Realms

-- The configuration in the data of the flo, if it is the one of a realm.
def Flo.realmConfig [RealmReader] (flo : Flo) : Option RealmConfig :=
  match FloRealm.tryFrom flo with
  | .ok realm => some realm.cache.getConfig
  | .error _  => none

namespace RealmStorage

variable [Sha256] [RealmReader] {s s' : RealmStorage} {fs : FloStorage} {op : Op}
  {run : List (Op × RealmStorage)} {realm : FloRealm}

-- The configuration in the flo of the realm, as it is stored.
def storedConfig (s : RealmStorage) : Option RealmConfig :=
  ((s.flos.lookup s.realmId).map FloStorage.flo).bind Flo.realmConfig

def Current (s : RealmStorage) : Prop :=
  s.storedConfig = some s.realmConfig

-- The flo of the realm is replaced by a newer version with another configuration.
def Op.Outdates (s : RealmStorage) : Op → Prop
  | .upsertFlo estimated stored flo =>
    (Op.upsertFlo estimated stored flo).Renews s s.realmId ∧ flo.realmConfig ≠ some s.realmConfig
  | _                               => False

-- The states after each of the operations.
def Performs : RealmStorage → List (Op × RealmStorage) → Prop
  | _, []             => True
  | s, (op, s') :: es => op.Does s s' ∧ Performs s' es

def NeverOutdates : RealmStorage → List (Op × RealmStorage) → Prop
  | _, []             => True
  | s, (op, s') :: es => ¬op.Outdates s ∧ NeverOutdates s' es

omit [RealmReader] in
theorem Op.Does.frame (h : op.Does s s') (hw : s.Wf) : Frame s s' := by
  cases op
  case upsertFlo      => exact hw.frame_upserts h.choose_spec
  case storeCuckooId  => exact h ▸ frame_storeCuckooId ..
  case storeCuckooIds => exact h ▸ frame_storeCuckooIds ..

omit [RealmReader] in
-- The flo of the realm stays as it is, unless it is replaced by a newer version.
theorem Op.Does.flo_realmId (h : op.Does s s') (hw : s.Wf)
    (hl : s.flos.lookup s.realmId = some fs) :
    (¬op.Renews s s.realmId ∧ (s'.flos.lookup s.realmId).map FloStorage.flo = some fs.flo) ∨
    ∃ estimated stored flo, op = .upsertFlo estimated stored flo ∧ op.Renews s s.realmId ∧
      (s'.flos.lookup s.realmId).map FloStorage.flo = some flo := by
  cases op
  case storeCuckooId parent cuckoo =>
    have hf := flo_storeCuckooIds s parent [cuckoo] s.realmId
    exact .inl ⟨not_false, h ▸ hf.trans (by rw [hl, Option.map_some])⟩
  case storeCuckooIds parent cuckoos =>
    have hf := flo_storeCuckooIds s parent cuckoos s.realmId
    exact .inl ⟨not_false, h ▸ hf.trans (by rw [hl, Option.map_some])⟩
  case upsertFlo estimated stored flo =>
    have ⟨isNew, hu⟩ := h
    by_cases ho : s.oversized flo
    case pos =>
      rw [((upserts_of_oversized ho).mp hu).left, hl]
      exact .inl ⟨fun hr => hr.right.left ho, rfl⟩
    case neg =>
      have ht := (upserts_iff ho).mp hu |>.right |>.trimmed (hw.taken ..) |>.lookup_realmId
      rw [(frame_taken s estimated stored flo).realmId, lookup_taken hl] at ht
      split at ht
      case isTrue hr =>
        obtain ⟨hid, hv⟩ := hr
        exact .inr ⟨estimated, stored, flo, rfl, ⟨hid, ho, fs, hl, hv⟩, by rw [ht]; rfl⟩
      case isFalse hr =>
        refine .inl ⟨fun hrenews => ?_, ?_⟩
        case refine_1 =>
          obtain ⟨hid, _, old, hold, hv⟩ := hrenews
          cases hl.symm.trans hold
          exact hr ⟨hid, hv⟩
        case refine_2 => rw [ht, flo_adoptCuckoo, hl, Option.map_some]

theorem current_new (dhtConfig : DHTConfig) (root : NodeID) (now : Int)
    (hid : realm.flo.floId = realm.flo.realm) (hp : FloRealm.tryFrom realm.flo = .ok realm) :
    (RealmStorage.new dhtConfig root now realm).Current := by
  have hf : Frame _ (RealmStorage.new dhtConfig root now realm) := frame_put ..
  rw [Current, storedConfig, hf.realmId, hf.realmConfig, RealmStorage.new, lookup_put,
    if_pos hid.symm, Option.map_some, Option.bind_some, FloStorage.ofFlo, Flo.realmConfig, hp]

theorem Op.Does.current_iff (h : op.Does s s') (hw : s.Wf) (hc : s.Current) :
    s'.Current ↔ ¬op.Outdates s := by
  have hf := h.frame hw
  have ⟨flo, hl, hc⟩ := Option.bind_eq_some_iff.mp hc
  have ⟨fs, hl, hflo⟩ := Option.map_eq_some_iff.mp hl
  rw [Current, storedConfig, hf.realmId, hf.realmConfig]
  cases h.flo_realmId hw hl
  case inl hs =>
    obtain ⟨hr, hs⟩ := hs
    rw [hs, hflo, Option.bind_some]
    refine iff_of_true hc fun ho => ?_
    cases op
    case upsertFlo => exact hr ho.left
    all_goals exact ho
  case inr hs =>
    obtain ⟨estimated, stored, flo, rfl, hr, hs⟩ := hs
    rw [hs, Option.bind_some, Outdates, and_iff_right hr, not_not]

theorem Reachable.current_iff (h : Reachable s) (hc : s.Current) (hr : Performs s run) :
    (∀ e ∈ run, e.2.Current) ↔ NeverOutdates s run := by
  induction run generalizing s
  case nil => simp [NeverOutdates]
  case cons e es hi =>
    obtain ⟨op, s'⟩ := e
    have ⟨hd, hs⟩ := hr
    have hstep := hd.current_iff h.wf hc
    simp only [List.forall_mem_cons, NeverOutdates, ← hstep]
    exact and_congr_right fun hc' => hi (h.step hd.step) hc' hs

-- From a new storage of a realm whose flo is stored under the id of the realm, the configuration is
-- the stored one in all states of a run exactly if no newer version of this flo changes it.
theorem current_iff_neverOutdates {dhtConfig : DHTConfig} {root : NodeID} {now : Int}
    (hid : realm.flo.floId = realm.flo.realm) (hp : FloRealm.tryFrom realm.flo = .ok realm)
    (hr : Performs (.new dhtConfig root now realm) run) :
    ((RealmStorage.new dhtConfig root now realm).Current ∧ ∀ e ∈ run, e.2.Current) ↔
      NeverOutdates (.new dhtConfig root now realm) run := by
  have hc := current_new dhtConfig root now hid hp
  rw [and_iff_right hc]
  exact Reachable.current_iff (.new ..) hc hr

end RealmStorage

namespace RealmStorage

attribute [local instance] Sha256.rolling

-- The first byte of the data is the space, in thousands.
abbrev sizedReader : RealmReader where
  fromRmpBytes data := some {
    name     := "sample"
    config   := { maxSpace := 1000 * (data.headD 0).toNat, maxFloSize := 0 }
    services := ∅
  }

attribute [local instance] sizedReader

def sizedFlo : Flo :=
  let flo := { Flo.sample .zero 0 5 with floType := "flmodules::flo::realm::Realm" }
  { flo with realm := flo.floId }

def sizedRealm : FloRealm where
  flo    := sizedFlo
  object := {
    name     := "sample"
    config   := { maxSpace := 1000, maxFloSize := 0 }
    services := ∅
  }

def sized : RealmStorage :=
  .new {} .zero 0 sizedRealm

-- The next version of the realm has twice the space.
def enlargedFlo : Flo :=
  { sizedFlo with data := [2], dataVersion := 1 }

def enlarged : RealmStorage :=
  sized.taken 0 0 enlargedFlo

theorem sized_does {flo : Flo} (ho : ¬sized.oversized flo)
    (hb : (sized.taken 0 0 flo).size ≤ sized.realmConfig.maxSpace) :
    (Op.upsertFlo 0 0 flo).Does sized (sized.taken 0 0 flo) :=
  upserts_taken ho hb

-- A version which keeps the space.
def renewedFlo : Flo :=
  { sizedFlo with data := [1], dataVersion := 1 }

theorem current_iff_neverOutdates_renewed :
    (sized.Current ∧ ∀ e ∈ [(Op.upsertFlo 0 0 renewedFlo, sized.taken 0 0 renewedFlo)],
      e.2.Current) ↔
    NeverOutdates sized [(Op.upsertFlo 0 0 renewedFlo, sized.taken 0 0 renewedFlo)] :=
  current_iff_neverOutdates (by decide +kernel) rfl
    ⟨sized_does (by decide +kernel) (by decide +kernel), trivial⟩

-- The realm is larger in the flo which is stored, but not for the storage.
theorem enlarged_not_current : sizedFlo.floId = sizedFlo.realm ∧
    FloRealm.tryFrom sizedFlo = .ok sizedRealm ∧
    (Op.upsertFlo 0 0 enlargedFlo).Does sized enlarged ∧
    enlarged.storedConfig = some { maxSpace := 2000, maxFloSize := 0 } ∧
    enlarged.realmConfig = { maxSpace := 1000, maxFloSize := 0 } ∧ ¬enlarged.Current := by
  have hs : enlarged.storedConfig = some { maxSpace := 2000, maxFloSize := 0 } := by
    decide +kernel
  have hr : enlarged.realmConfig = { maxSpace := 1000, maxFloSize := 0 } := by decide +kernel
  have hd : (Op.upsertFlo 0 0 enlargedFlo).Does sized enlarged :=
    sized_does (by decide +kernel) (by decide +kernel)
  refine ⟨by decide +kernel, rfl, hd, hs, hr, fun hc => ?_⟩
  rw [Current, hs, hr] at hc
  simp at hc

end RealmStorage
