import Fledger.DhtStorage.Realms

namespace RealmStorage

variable [Sha256] {s s' : RealmStorage} {id : FloID} {fs : FloStorage} {flo : Flo}
  {estimated stored : Int} {isNew : Bool}

-- There is room for the flo, so that nothing has to be refused or evicted.
structure Roomy (s : RealmStorage) (flo : Flo) : Prop where
  size  : ¬s.oversized flo
  taken : ∀ estimated stored, (s.taken estimated stored flo).size ≤ s.realmConfig.maxSpace
  fresh : flo.floId ∉ s.flos → ∀ estimated, (s.adoptCuckoo flo).accepts estimated flo = true

theorem Roomy.upserts_eq (h : s.Roomy flo) (hu : s.Upserts estimated stored flo s' isNew) :
    s' = s.taken estimated stored flo := by
  have ht := (upserts_iff h.size).mp hu |>.right
  have hb := h.taken estimated stored
  rw [← (frame_taken s estimated stored flo).realmConfig] at hb
  exact Queue.Trims.eq_of_le ht hb

theorem mem_taken_of_mem (h : id ∈ s.flos) : id ∈ (s.taken estimated stored flo).flos := by
  unfold taken
  dsimp only
  split
  case isTrue  => exact mem_put.mpr <| .inr <| mem_adoptCuckoo.mpr h
  case isFalse => exact mem_adoptCuckoo.mpr h

-- What is stored stays stored, in the same or a later version.
theorem Roomy.keeps (h : s.Roomy flo) (hw : s.Wf) (hu : s.Upserts estimated stored flo s' isNew)
    (hl : s.flos.lookup id = some fs) :
    ∃ fs', s'.flos.lookup id = some fs' ∧ fs.version ≤ fs'.version := by
  have hm : id ∈ (s.taken estimated stored flo).flos :=
    mem_taken_of_mem <| HashMap.mem_iff_lookup.mpr ⟨fs, hl⟩
  rw [← h.upserts_eq hu] at hm
  have ⟨fs', hl'⟩ := HashMap.mem_iff_lookup.mp hm
  exact ⟨fs', hl', hw.version_le (.upsertFlo hu) hl hl'⟩

-- The flo is stored, or a later version of it.
theorem Roomy.stores (h : s.Roomy flo) (hu : s.Upserts estimated stored flo s' isNew) :
    ∃ fs, s'.flos.lookup flo.floId = some fs ∧ flo.version ≤ fs.version := by
  rw [h.upserts_eq hu, RealmStorage.taken]
  split
  case isTrue => exact ⟨.ofFlo stored flo, by rw [lookup_put, if_pos rfl], UInt32.le_refl _⟩
  case isFalse hacc =>
    have hm : flo.floId ∈ s.flos := by
      by_contra hm
      exact hacc <| h.fresh hm estimated
    have hm : flo.floId ∈ (s.adoptCuckoo flo).flos := mem_adoptCuckoo.mpr hm
    have ⟨fs, hl⟩ := HashMap.mem_iff_lookup.mp hm
    exact ⟨fs, hl, UInt32.not_lt.mp fun hv => hacc <| accepts_of_lookup hl |>.mpr hv⟩

end RealmStorage

-- The flos which are written, one after the other.
def Write.flos : Write → List FloCuckoo
  | .storeFlo flo        => [(flo, [])]
  | .storeFloCuckoos fcs => fcs
  | _                    => []

namespace Messages

variable [Sha256] [RealmReader] {m m' m₁ m₂ : Messages} {env : Env} {flo : Flo} {rid : RealmID}
  {id : FloID} {v : UInt32} {isNew : Bool} {fc : FloCuckoo} {fcs : List FloCuckoo}

-- The flo is stored in the realm, in this or in a later version.
def Holds (m : Messages) (rid : RealmID) (id : FloID) (v : UInt32) : Prop :=
  ∃ s fs, m.realms.lookup rid = some s ∧ s.flos.lookup id = some fs ∧ v ≤ fs.version

structure Grows (m m' : Messages) : Prop where
  config : m'.config = m.config
  realms : ∀ {rid}, rid ∈ m.realms → rid ∈ m'.realms
  flos   : ∀ {rid id v}, m.Holds rid id v → m'.Holds rid id v

omit [Sha256] [RealmReader] in
theorem Grows.refl (m : Messages) : m.Grows m :=
  ⟨rfl, fun hm => hm, fun hh => hh⟩

omit [Sha256] [RealmReader] in
theorem Grows.trans (h₁ : m.Grows m₁) (h₂ : m₁.Grows m₂) : m.Grows m₂ :=
  ⟨h₂.config.trans h₁.config, fun hm => h₂.realms (h₁.realms hm), fun hh => h₂.flos (h₁.flos hh)⟩

omit [Sha256] [RealmReader] in
theorem Grows.congr (h : m.Grows m₁) (hc : m'.config = m₁.config) (hr : m'.realms = m₁.realms) :
    m.Grows m' where
  config     := hc.trans h.config
  realms hm  := hr ▸ h.realms hm
  flos hh    := by
    have ⟨s, fs, hl, hf⟩ := h.flos hh
    exact ⟨s, fs, hr ▸ hl, hf⟩

-- The flo opens its realm, if this is accepted.
def Opens (flo : Flo) : Prop :=
  ∃ object, FloRealm.tryFrom flo = .ok { flo, object }

theorem Takes.grows (ht : m.Takes env flo m' isNew) (hw : m.Wf)
    (hroom : ∀ s, m.realms.lookup flo.realm = some s → s.Roomy flo) : m.Grows m' := by
  cases ht
  case ignored => exact .refl m
  case created hn _ _ =>
    refine ⟨rfl, fun hm => AList.mem_insert _ |>.mpr (.inr hm), fun {rid _ _} hh => ?_⟩
    obtain ⟨s, fs, hl, hf⟩ := hh
    have hne : rid ≠ flo.realm := by
      intro he
      cases hn.symm.trans (he ▸ hl)
    exact ⟨s, fs, by rw [insertRealm, HashMap.lookup_insert_of_ne hne, hl], hf⟩
  case known s₀ s' hl₀ hu =>
    refine ⟨rfl, fun hm => AList.mem_insert _ |>.mpr (.inr hm), fun {rid _ _} hh => ?_⟩
    obtain ⟨s, fs, hl, hf, hv⟩ := hh
    by_cases he : rid = flo.realm
    case neg => exact ⟨s, fs, by rw [insertRealm, HashMap.lookup_insert_of_ne he, hl], hf, hv⟩
    case pos =>
      cases hl₀.symm.trans (he ▸ hl)
      obtain ⟨fs', hf', hv'⟩ := (hroom _ hl₀).keeps (hw.hosts hl₀).reachable.wf hu hf
      refine ⟨s', fs', ?_, hf', UInt32.le_trans hv hv'⟩
      rw [he, insertRealm, AList.lookup_insert]

theorem Takes.holds (ht : m.Takes env flo m' isNew) (hm : flo.realm ∈ m.realms)
    (hroom : ∀ s, m.realms.lookup flo.realm = some s → s.Roomy flo) :
    m'.Holds flo.realm flo.floId flo.version := by
  have ⟨s, hl⟩ := HashMap.mem_iff_lookup.mp hm
  cases ht
  case created hn _ _ | ignored hn _ => simp [hl] at hn
  case known s₀ s' hl₀ hu =>
    have ⟨fs, hf, hv⟩ := (hroom _ hl₀).stores hu
    exact ⟨s', fs, AList.lookup_insert _, hf, hv⟩

theorem Takes.opens (ht : m.Takes env flo m' isNew) (ho : Opens flo)
    (ha : m.config.acceptsRealm flo.realm = true) : flo.realm ∈ m'.realms := by
  have ⟨object, hp⟩ := ho
  cases ht
  case known | created => exact AList.mem_insert _ |>.mpr (.inl rfl)
  case ignored hr => simp [ha] at hr; exact absurd hp (hr object)

omit [Sha256] [RealmReader] in
theorem grows_storeCuckooIds (m : Messages) (rid : RealmID) (parent : FloID)
    (cuckoos : List FloID) : m.Grows (m.mapRealm rid (·.storeCuckooIds parent cuckoos)) := by
  refine ⟨rfl, fun {i} hm => ?_, fun {i _ _} hh => ?_⟩
  case refine_1 =>
    obtain ⟨s, hl⟩ := HashMap.mem_iff_lookup.mp hm
    rw [HashMap.mem_iff_lookup, mapRealm, HashMap.lookup_modify]
    split
    case isTrue hi => exact ⟨_, by rw [← hi, hl, Option.map_some]⟩
    case isFalse   => exact ⟨s, hl⟩
  case refine_2 =>
    obtain ⟨s, fs, hl, hf, hv⟩ := hh
    by_cases hi : i = rid
    case neg => exact ⟨s, fs, by rw [mapRealm, HashMap.lookup_modify, if_neg hi, hl], hf, hv⟩
    case pos =>
      have hfs := RealmStorage.flo_storeCuckooIds s parent cuckoos
      obtain ⟨fs', hf', he⟩ := Option.map_eq_some_iff.mp <| (hfs _).trans <| congrArg _ hf
      refine ⟨s.storeCuckooIds parent cuckoos, fs', ?_, hf', ?_⟩
      case refine_1 => rw [mapRealm, HashMap.lookup_modify, if_pos hi, ← hi, hl, Option.map_some]
      case refine_2 => rwa [FloStorage.version, he]

section Store

variable [Yaml (HashMap RealmID RealmStorage)] [Yaml MessageClosest]

-- There is room for all flos, one after the other.
def RoomFor (m : Messages) (env : Env) : List FloCuckoo → Prop
  | []        => True
  | fc :: fcs =>
    (∀ s, m.realms.lookup fc.1.realm = some s → s.Roomy fc.1) ∧
    ∀ m', m.storeFloCuckoo env fc = some m' → m'.RoomFor env.next fcs

-- What is known after flos have been received.
structure Received (m : Messages) (fcs : List FloCuckoo) (m' : Messages) : Prop where
  grows : m.Grows m'
  holds : ∀ {flo cuckoos}, (flo, cuckoos) ∈ fcs → flo.realm ∈ m.realms →
    m'.Holds flo.realm flo.floId flo.version
  opens : ∀ {flo cuckoos}, (flo, cuckoos) ∈ fcs → Opens flo →
    m.config.acceptsRealm flo.realm = true → flo.realm ∈ m'.realms

theorem received_storeFloCuckoo (hs : m.storeFloCuckoo env fc = some m') (hw : m.Wf)
    (hroom : ∀ s, m.realms.lookup fc.1.realm = some s → s.Roomy fc.1) : m.Received [fc] m' := by
  have ⟨m₁, isNew, ht, hc, hr⟩ := takes_of_storeFloCuckoo hs
  have hg := (grows_storeCuckooIds m₁ fc.1.realm fc.1.floId fc.2).congr (hc.trans ht.config.symm) hr
  refine ⟨(ht.grows hw hroom).trans hg, fun hm hk => ?_, fun hm ho ha => ?_⟩
  case refine_1 => cases List.mem_singleton.mp hm; exact hg.flos <| ht.holds hk hroom
  case refine_2 => cases List.mem_singleton.mp hm; exact hg.realms <| ht.opens ho ha

theorem received_storeFloCuckoos (hs : m.storeFloCuckoos env fcs = some m') (hw : m.Wf)
    (hroom : m.RoomFor env fcs) : m.Received fcs m' := by
  induction fcs generalizing m env
  case nil =>
    cases hs
    exact ⟨.refl _, fun hm => absurd hm List.not_mem_nil, fun hm => absurd hm List.not_mem_nil⟩
  case cons fc fcs hi =>
    have ⟨m₁, h₁, hs⟩ := storeFloCuckoos_cons.mp hs
    have hr₁ := received_storeFloCuckoo h₁ hw hroom.left
    have hr := hi hs (hw.storeFloCuckoo h₁) (hroom.right m₁ h₁)
    refine ⟨hr₁.grows.trans hr.grows, fun hm hk => ?_, fun hm ho ha => ?_⟩
    case refine_1 =>
      cases List.mem_cons.mp hm
      case inl he => exact hr.grows.flos <| hr₁.holds (List.mem_singleton.mpr he) hk
      case inr hm => exact hr.holds hm (hr₁.grows.realms hk)
    case refine_2 =>
      cases List.mem_cons.mp hm
      case inl he => exact hr.grows.realms <| hr₁.opens (List.mem_singleton.mpr he) ho ha
      case inr hm => exact hr.opens hm ho (hr₁.grows.config ▸ ha)

theorem grows_of_perform {write : Write} (hs : m.perform env write = some m') (hw : m.Wf)
    (hroom : m.RoomFor env write.flos) : m.Grows m' := by
  cases write <;> simp only [perform, Option.some.injEq] at hs
  case nothing                         => exact hs ▸ .refl m
  case storeFloCuckoos                 => exact (received_storeFloCuckoos hs hw hroom).grows
  case storeCuckooId rid parent cuckoo => exact hs ▸ grows_storeCuckooIds m rid parent [cuckoo]
  case storeFlo                        =>
    obtain ⟨⟨_, _⟩, hflo, hs⟩ := Option.map_eq_some_iff.mp hs
    obtain ⟨_, _, ht, hr, hc⟩ := takes_of_storeFlo hflo
    exact hs ▸ (ht.grows hw hroom.left).congr hc hr

variable [Yaml MessageNeighbour] [Yaml MessageDest] {input : InternIn} {out : List InternOut}

-- As long as there is room, nothing is lost.
theorem Holds.message (hh : m.Holds rid id v) (hs : m.message env input = some (m', out))
    (hw : m.Wf) (hroom : m.RoomFor env input.write.flos) : m'.Holds rid id v := by
  obtain ⟨_, hp, hr, _⟩ := perform_of_message hs
  obtain ⟨s, fs, hl, hf⟩ := (grows_of_perform hp hw hroom).flos hh
  exact ⟨s, fs, hr ▸ hl, hf⟩

end Store

end Messages
