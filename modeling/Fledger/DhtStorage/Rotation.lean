import Fledger.DhtStorage.Report
import Fledger.Flo.Concrete
import Fledger.Flo.Updates
import Mathlib.Logic.Relation

namespace RealmStorage

variable [Sha256] {s s' s'' : RealmStorage} {id : FloID} {fs : FloStorage} {f f' flo : Flo}
  {estimated stored : Int} {isNew : Bool}

-- The flo is not too large, and it is enough to evict what is further away to make room for it.
structure FitsIn (s : RealmStorage) (stored : Int) (flo : Flo) : Prop where
  size  : ¬s.oversized flo
  front : (s.adoptCuckoo flo).loadWith stored flo ≤
    s.realmConfig.maxSpace + Queue.weight ((s.adoptCuckoo flo).inFront flo.floId)

-- A further run in which the id stays stored all the time.
def Keeps (id : FloID) : RealmStorage → RealmStorage → Prop :=
  Relation.ReflTransGen fun s s' => Step s s' ∧ id ∈ s'.flos

-- The new flo takes the place of the old one, and this lasts: no later call with the old flo brings
-- it back.
def Rotates (s : RealmStorage) (estimated stored : Int) (f f' : Flo) : Prop :=
  ∃ s' isNew, s.Upserts estimated stored f' s' isNew ∧
    (∃ cuckoos, s'.getFloCuckoo f'.floId = some (f', cuckoos)) ∧
    ∀ s'', Keeps f'.floId s' s'' →
      ∀ estimated' stored' s₃ isNew', s''.Upserts estimated' stored' f s₃ isNew' →
        ∀ cuckoos, s₃.getFloCuckoo f'.floId ≠ some (f, cuckoos)

theorem Keeps.version_le (h : Keeps id s s') (hs : s.Wf) (hl : s.flos.lookup id = some fs) :
    s'.Wf ∧ ∃ fs', s'.flos.lookup id = some fs' ∧ fs.version ≤ fs'.version := by
  induction h
  case refl => exact ⟨hs, fs, hl, UInt32.le_refl _⟩
  case tail hstep hi =>
    have ⟨hw, fs₁, hl₁, hv₁⟩ := hi
    have ⟨fs₂, hl₂⟩ := HashMap.mem_iff_lookup.mp hstep.right
    exact ⟨hw.step hstep.left, fs₂, hl₂, UInt32.le_trans hv₁ (hw.version_le hstep.left hl₁ hl₂)⟩

-- A flo of a later version which fits in is accepted, and it is not evicted.
theorem Wf.upserts_newer (h : s.Wf) (estimated : Int) (hl : s.flos.lookup flo.floId = some fs)
    (hv : fs.version < flo.version) (hfit : s.FitsIn stored flo) :
    ∃ s', s.Upserts estimated stored flo s' true ∧
      s'.flos.lookup flo.floId = some (.ofFlo stored flo) := by
  have ha := h.adoptCuckoo flo
  have hp := ha.put stored flo
  have hc := (frame_adoptCuckoo s flo).realmConfig
  have hcp := (frame_put (s.adoptCuckoo flo) stored flo).realmConfig
  have hacc : (s.adoptCuckoo flo).accepts estimated flo = true := (accepts_adoptCuckoo hl).mpr hv
  obtain ⟨q, hq⟩ := ha.inFront_prefix stored flo
  have hfront := hfit.front
  have hload : ((s.adoptCuckoo flo).put stored flo).size ≤
      ((s.adoptCuckoo flo).put stored flo).realmConfig.maxSpace +
        Queue.weight ((s.adoptCuckoo flo).put stored flo).items := by
    rw [ha.size_put_eq, hcp, hc, hq, Queue.weight_append]
    omega
  obtain ⟨s', ht⟩ := (Queue.trims_iff (show evictionQueue.Inv _ from hp)).mpr hload
  have ht : Trims ((s.adoptCuckoo flo).put stored flo) s' := ht
  refine ⟨s', (upserts_iff hfit.size).mpr ⟨by simp [hacc], taken_of_accepts hacc ▸ ht⟩, ?_⟩
  exact (ht.trimmed hp).lookup_of_put <| (ht.mem_put_iff ha).mpr (hc ▸ hfront)

-- A flo which is not newer than what is stored does not change it.
theorem Wf.upserts_stale (h : s.Wf) (hu : s.Upserts estimated stored flo s' isNew)
    (hl : s.flos.lookup flo.floId = some fs) (hv : ¬fs.version < flo.version)
    (hm : flo.floId ∈ s'.flos) : (s'.flos.lookup flo.floId).map FloStorage.flo = some fs.flo := by
  have ⟨fs', hl'⟩ := HashMap.mem_iff_lookup.mp hm
  rcases h.lookup_upserts hu hl' with ⟨_, _, hlt⟩ | ⟨fs₀, hl₀, hf⟩
  · exact absurd (hlt fs hl) hv
  · rw [hl] at hl₀
    cases hl₀
    rw [hl', Option.map_some, hf]

-- A later version which fits in takes the place of the stored flo, and keeps it.
theorem Wf.rotates_of_newer (h : s.Wf) (hid : f'.floId = f.floId)
    (hl : s.flos.lookup f'.floId = some fs) (hfs : fs.flo = f) (hv : f.version < f'.version)
    (hfit : s.FitsIn stored f') : s.Rotates estimated stored f f' := by
  have hv' : fs.version < f'.version := by rwa [FloStorage.version, hfs]
  obtain ⟨s', hu, hl'⟩ := h.upserts_newer estimated hl hv' hfit
  refine ⟨s', true, hu, ⟨[], getFloCuckoo_eq_some.mpr ⟨_, hl', rfl, rfl⟩⟩, ?_⟩
  intro s'' hk _ _ s₃ _ hu₃ cuckoos hg
  obtain ⟨hw, fs₂, hl₂, hv₂⟩ := hk.version_le (h.upserts hu) hl'
  obtain ⟨fs₃, hl₃, hf₃, _⟩ := getFloCuckoo_eq_some.mp hg
  have hv₂ : f.version < fs₂.version := UInt32.lt_of_lt_of_le hv hv₂
  rw [hid] at hl₂ hl₃
  have hmem := HashMap.mem_iff_lookup.mpr ⟨fs₃, hl₃⟩
  have he := hw.upserts_stale hu₃ hl₂ (UInt32.lt_asymm hv₂) hmem
  rw [hl₃, Option.map_some, Option.some.injEq, hf₃] at he
  rw [FloStorage.version, ← he] at hv₂
  exact UInt32.lt_irrefl _ hv₂

-- Otherwise the old flo stays, and a call with it gives it back.
theorem Wf.newer_of_rotates (h : s.Wf) (hl : s.flos.lookup f'.floId = some fs) (hfs : fs.flo = f)
    (hfit : s.FitsIn stored f') (hr : s.Rotates estimated stored f f') :
    f.version < f'.version := by
  obtain ⟨s', isNew, hu, ⟨_, hg⟩, hback⟩ := hr
  refine Decidable.byContradiction fun hv => ?_
  have hv' : ¬fs.version < f'.version := by rwa [FloStorage.version, hfs]
  obtain ⟨fs', hl', hf', _⟩ := getFloCuckoo_eq_some.mp hg
  have hmem := HashMap.mem_iff_lookup.mpr ⟨fs', hl'⟩
  -- The old flo is still there, so the new one is the same again.
  have he := h.upserts_stale hu hl hv' hmem
  rw [hl', Option.map_some, Option.some.injEq, hf', hfs] at he
  have hacc : (s.adoptCuckoo f').accepts estimated f' = false :=
    Bool.eq_false_iff.mpr <| (accepts_adoptCuckoo hl).not.mpr hv'
  have ht := (upserts_iff hfit.size).mp hu |>.right
  rw [taken_of_stale hacc] at ht
  have hspared := (ht.mem_iff <| h.adoptCuckoo f').mp hmem
  rw [mem_adoptCuckoo] at hspared
  obtain ⟨_, hsettled⟩ := (report_iff_of_stale h hfit.size hacc hu).mpr hspared
  obtain ⟨s₃, hu₃, hsame₃⟩ := hsettled 0 0
  have hs₃ := hsame₃ f'.floId
  rw [hl', Option.map_some, hf'] at hs₃
  obtain ⟨fs₃, hl₃, hf₃⟩ := Option.map_eq_some_iff.mp hs₃
  exact hback s' .refl 0 0 s₃ false (he ▸ hu₃) fs₃.cuckoos <|
    getFloCuckoo_eq_some.mpr ⟨fs₃, hl₃, he ▸ hf₃, rfl⟩

-- Rotating the keys of a stored flo works exactly if there is an update of the data along with it.
theorem rotates_iff_version [Ed25519] [Target] {us : List SignedUpdate} (h : Reachable s)
    (hf : s.Stored f) (hup : f.applyUpdates us = .ok f')
    (hfit : s.FitsIn stored f') : s.Rotates estimated stored f f' ↔
      f.version < f.version + .ofNat (us.countP SignedUpdate.isData) := by
  obtain ⟨hsame, hversion⟩ := Flo.applyUpdates_eq_ok hup
  obtain ⟨fs, hl, hfs⟩ := hf
  have hid := hsame.floId
  rw [← hid] at hl
  rw [← hversion]
  constructor
  case mpr => exact fun hv => h.wf.rotates_of_newer hid hl hfs hv hfit
  case mp  => exact fun hr => h.wf.newer_of_rotates hl hfs hfit hr

end RealmStorage

namespace RealmStorage

attribute [local instance] Sha256.rolling Ed25519.plain Target.native64

-- The flo of the realm.
def rotating : Flo :=
  (Flo.sampleRealm 1000 10).flo

def rotatingStorage : RealmStorage :=
  .new {} .zero 0 (Flo.sampleRealm 1000 10)

theorem rotatingStorage_stored : rotatingStorage.Stored rotating := by
  refine ⟨.ofFlo 0 rotating, ?_, rfl⟩
  rw [rotatingStorage, RealmStorage.new, lookup_put, rotating, if_pos rfl]

-- From now on, everybody can update the content.
def opened : UpdateCondSign where
  cond          := .pass
  digestData    := .zero
  digestCond    := .zero
  signatureData := .new .pass
  signatureCond := .new .fail

def openedData : UpdateDataSign :=
  ({ rotating with
      condUpdate := [{ cond := .pass, signatures := .new .fail }] } : Flo).startSignData .pass [7]

theorem rotates_iff_version_opened : ∃ f',
    rotating.applyUpdates [.cond opened, .data openedData] = .ok f' ∧
    (rotatingStorage.Rotates 0 0 rotating f' ↔ rotating.version <
      rotating.version + .ofNat ([.cond opened, .data openedData].countP SignedUpdate.isData)) := by
  have ⟨f', hf, hfit⟩ : ∃ f', rotating.applyUpdates [.cond opened, .data openedData] = .ok f' ∧
      rotatingStorage.FitsIn 0 f' := by
    refine ⟨_, Outcome.bind_eq_ok.mpr ⟨_, rfl, Outcome.bind_eq_ok.mpr
      ⟨_, Flo.updateData_eq_ok.mpr ⟨?_, ?_, rfl⟩, rfl⟩⟩, ?_, ?_⟩
    all_goals decide +kernel
  exact ⟨f', hf, rotates_iff_version (.new ..) rotatingStorage_stored hf hfit⟩

-- If only the keys are rotated, then the storage does not take the flo.
theorem opened_not_rotates : ∃ f', rotating.applyUpdates [.cond opened] = .ok f' ∧
    rotatingStorage.FitsIn 0 f' ∧ ¬rotatingStorage.Rotates 0 0 rotating f' := by
  refine ⟨_, rfl, ⟨?_, ?_⟩, ?_⟩
  case refine_1 => decide +kernel
  case refine_2 => decide +kernel
  case refine_3 =>
    intro ⟨s', isNew, hu, ⟨_, hg⟩, _⟩
    have ⟨fs, hl, hf, _⟩ := getFloCuckoo_eq_some.mp hg
    have ⟨fs₀, hl₀, hfs₀⟩ := rotatingStorage_stored
    have hr : Reachable rotatingStorage := .new ..
    have hv : ¬fs₀.version < rotating.version := by
      rw [FloStorage.version, hfs₀]
      exact UInt32.lt_irrefl _
    have he := hr.wf.upserts_stale hu hl₀ hv (HashMap.mem_iff_lookup.mpr ⟨fs, hl⟩)
    rw [hl, Option.map_some, Option.some.injEq, hf, hfs₀] at he
    simpa [rotating, Flo.sampleRealm, Flo.sample] using congrArg Flo.condUpdate he

end RealmStorage
