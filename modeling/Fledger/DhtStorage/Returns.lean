import Fledger.DhtStorage.Bound
import Fledger.DhtStorage.Growth

namespace RealmStorage

variable [Sha256] {s : RealmStorage} {flo : Flo} {estimated stored : Int} {n k : Nat}
  {r : RealmStorage × Bool}

theorem upsertFlo_mono (h : s.upsertFlo n estimated stored flo = some r) (hle : n ≤ k) :
    s.upsertFlo k estimated stored flo = some r := by
  unfold upsertFlo at h ⊢
  split at h
  case isTrue ho  => rwa [if_pos ho]
  case isFalse ho =>
    obtain ⟨s', hr, h⟩ := Option.map_eq_some_iff.mp h
    rw [if_neg ho]
    exact Option.map_eq_some_iff.mpr ⟨s', Loop.run_mono hr hle, h⟩

-- The flo of the realm leaves some room, also after the given flo has come in.
def Uncrowded (s : RealmStorage) (flo : Flo) : Prop :=
  ¬s.oversized flo → ∀ estimated stored, s.heldSize estimated stored flo ≤ s.realmConfig.maxSpace

theorem Wf.upserts_of_uncrowded (h : s.Wf) (hu : s.Uncrowded flo) (estimated stored : Int) :
    ∃ s' isNew, s.Upserts estimated stored flo s' isNew := by
  by_cases ho : s.oversized flo
  case pos => exact ⟨s, false, (upserts_of_oversized ho).mpr ⟨rfl, rfl⟩⟩
  case neg => exact (h.exists_upserts_iff ho).mpr <| hu ho estimated stored

theorem Roomy.uncrowded (h : s.Roomy flo) (hw : s.Wf) : s.Uncrowded flo := fun ho estimated stored =>
  (hw.exists_upserts_iff ho).mp ⟨_, upserts_taken h.size (h.taken estimated stored)⟩

-- One check of the guard is enough if there is room.
theorem Roomy.upsertFlo (h : s.Roomy flo) (hn : 0 < n) (estimated stored : Int) :
    ∃ isNew, s.upsertFlo n estimated stored flo = some (s.taken estimated stored flo, isNew) := by
  obtain ⟨n, rfl⟩ := Nat.exists_eq_add_of_le' hn
  have ho : ¬flo.size * 3 > s.realmConfig.maxSpace := h.size
  have hb := h.taken estimated stored
  rw [← (frame_taken s estimated stored flo).realmConfig] at hb
  refine ⟨((s.adoptCuckoo flo).insertFlo estimated stored flo).2, ?_⟩
  unfold RealmStorage.upsertFlo
  simp only [ho, if_false, insertFlo_fst]
  have hr : Loop.run (fun s => decide (s.size > s.realmConfig.maxSpace)) removeFurthest (n + 1)
      (s.taken estimated stored flo) = some (s.taken estimated stored flo) := by
    rw [Loop.run, if_neg (by simpa using hb)]
  exact Option.map_eq_some_iff.mpr ⟨_, hr, rfl⟩

end RealmStorage

namespace Messages

variable [Sha256] [RealmReader] {m m' : Messages} {env : Env} {flo : Flo} {fc : FloCuckoo}
  {fcs : List FloCuckoo} {fuel : Nat} {isNew : Bool} {out : List InternOut} {input : InternIn}

section Fuel

-- A handler which returns does the same with more fuel.

theorem takeFlo_mono (h : m.takeFlo env flo = some (m', isNew)) (hle : env.fuel ≤ fuel) :
    m.takeFlo { env with fuel } flo = some (m', isNew) := by
  unfold takeFlo at h ⊢
  cases hl : m.realms.lookup flo.realm
  case none   => rwa [hl] at h
  case some s =>
    simp only [hl] at h ⊢
    obtain ⟨r, hu, h⟩ := Option.bind_eq_some_iff.mp h
    exact Option.bind_eq_some_iff.mpr ⟨r, RealmStorage.upsertFlo_mono hu hle, h⟩

variable [Yaml (HashMap RealmID RealmStorage)] [Yaml MessageClosest]

theorem storeFlo_mono (h : m.storeFlo env flo = some (m', out)) (hle : env.fuel ≤ fuel) :
    m.storeFlo { env with fuel } flo = some (m', out) := by
  obtain ⟨m₁, isNew, ht, hm, ha⟩ := storeFlo_eq_some.mp h
  exact storeFlo_eq_some.mpr ⟨m₁, isNew, takeFlo_mono ht hle, hm, ha⟩

theorem storeFloCuckoo_mono (h : m.storeFloCuckoo env fc = some m') (hle : env.fuel ≤ fuel) :
    m.storeFloCuckoo { env with fuel } fc = some m' := by
  obtain ⟨r, hs, h⟩ := Option.bind_eq_some_iff.mp h
  exact Option.bind_eq_some_iff.mpr ⟨r, storeFlo_mono hs hle, h⟩

theorem storeFloCuckoos_mono (h : m.storeFloCuckoos env fcs = some m') (hle : env.fuel ≤ fuel) :
    m.storeFloCuckoos { env with fuel } fcs = some m' := by
  induction fcs generalizing m env
  case nil     => exact h
  case cons hi =>
    obtain ⟨m₁, h₁, h⟩ := storeFloCuckoos_cons.mp h
    have hn : env.next.fuel ≤ fuel := hle
    exact storeFloCuckoos_cons.mpr ⟨m₁, storeFloCuckoo_mono h₁ hle, hi h hn⟩

variable [Yaml MessageNeighbour] [Yaml MessageDest]

omit [Yaml MessageNeighbour] in
theorem msgRouting_mono {origin : NodeID} {key : U256} {msg : MessageClosest}
    (h : m.msgRouting env origin key msg = some (m', out)) (hle : env.fuel ≤ fuel) :
    m.msgRouting { env with fuel } origin key msg = some (m', out) := by
  cases msg
  case storeFlo => exact storeFlo_mono h hle
  all_goals exact h

omit [Yaml MessageNeighbour] [Yaml MessageDest] in
theorem msgDest_mono {msg : MessageDest} (h : m.msgDest env msg = some (m', out))
    (hle : env.fuel ≤ fuel) : m.msgDest { env with fuel } msg = some (m', out) := by
  cases msg
  case floValue =>
    obtain ⟨m₁, hs, h⟩ := Option.bind_eq_some_iff.mp h
    exact Option.bind_eq_some_iff.mpr ⟨m₁, storeFloCuckoo_mono hs hle, h⟩
  all_goals exact h

omit [Yaml MessageDest] in
theorem msgNeighbour_mono {origin : NodeID} {msg : MessageNeighbour}
    (h : m.msgNeighbour env origin msg = some (m', out)) (hle : env.fuel ≤ fuel) :
    m.msgNeighbour { env with fuel } origin msg = some (m', out) := by
  cases msg
  case flos =>
    obtain ⟨m₁, hs, h⟩ := Option.map_eq_some_iff.mp h
    exact Option.map_eq_some_iff.mpr ⟨m₁, storeFloCuckoos_mono hs hle, h⟩
  all_goals exact h

theorem message_mono (h : m.message env input = some (m', out)) (hle : env.fuel ≤ fuel) :
    m.message { env with fuel } input = some (m', out) := by
  cases input
  case propagateFlos => exact h
  case storage msg   =>
    cases msg
    case storeFlo => exact storeFlo_mono h hle
    all_goals exact h
  case routing msg   =>
    cases msg <;> simp only [message, msgDhtRouter] at h ⊢
    case nodeList | systemRealm           => exact h
    case messageRouting | messageClosest  =>
      split at h
      case h_1 hu => exact msgRouting_mono h hle
      case h_2    => exact h
    case messageDest                      =>
      split at h
      case h_1 hu => exact msgDest_mono h hle
      case h_2    => exact h
    case messageNeighbour                 =>
      split at h
      case h_1 hu => exact msgNeighbour_mono h hle
      case h_2    => exact h

-- More fuel does not make a difference: there is enough for a loop which ends.
def Ample (m : Messages) (env : Env) (input : InternIn) : Prop :=
  ∀ fuel ≥ env.fuel, m.message { env with fuel } input = m.message env input

theorem ample_of_message (h : m.message env input = some (m', out)) : m.Ample env input :=
  fun _ hle => (message_mono h hle).trans h.symm

theorem exists_ample (m : Messages) (env : Env) (input : InternIn) :
    ∃ fuel, m.Ample { env with fuel } input := by
  by_cases h : ∃ fuel r, m.message { env with fuel } input = some r
  case pos =>
    obtain ⟨fuel, r, h⟩ := h
    exact ⟨fuel, ample_of_message h⟩
  case neg =>
    have hn (fuel : Nat) : m.message { env with fuel } input = none :=
      Option.eq_none_iff_forall_ne_some.mpr fun r hr => h ⟨fuel, r, hr⟩
    exact ⟨0, fun fuel _ => (hn fuel).trans (hn 0).symm⟩

theorem Ample.exists_message (ha : m.Ample env input)
    (h : ∃ fuel r, m.message { env with fuel } input = some r) :
    ∃ m' out, m.message env input = some (m', out) := by
  obtain ⟨fuel, ⟨m', out⟩, h⟩ := h
  have hm := message_mono h (Nat.le_max_right env.fuel fuel)
  exact ⟨m', out, (ha _ <| Nat.le_max_left ..).symm.trans hm⟩

end Fuel

section Returns

-- The loop of the realm ends for the flo, if there is the realm.
def Settles (m : Messages) (flo : Flo) : Prop :=
  ∀ s, m.realms.lookup flo.realm = some s → ∀ estimated stored,
    ∃ s' isNew, s.Upserts estimated stored flo s' isNew

theorem Settles.exists_takeFlo (h : m.Settles flo) (env : Env) :
    ∃ fuel r, m.takeFlo { env with fuel } flo = some r := by
  unfold takeFlo
  cases hl : m.realms.lookup flo.realm
  case some s =>
    obtain ⟨s', isNew, fuel, hu⟩ := h s hl (env.now 0) (env.now 1)
    exact ⟨fuel, _, Option.bind_eq_some_iff.mpr ⟨_, hu, rfl⟩⟩
  case none   =>
    dsimp only
    split
    case h_1 => exact ⟨0, _, rfl⟩
    case h_2 => split <;> exact ⟨0, _, rfl⟩

variable [Yaml (HashMap RealmID RealmStorage)] [Yaml MessageClosest]

-- What is sent about the flo can be written.
def Announced (flo : Flo) : Prop :=
  ∀ isNew, ∃ out, announcements flo isNew = some out

omit [Yaml (HashMap RealmID RealmStorage)] [RealmReader] in
theorem announced_of_lossless (h : Yaml.Lossless (MessageClosest.storeFlo flo))
    (hn : flo.floConfig.cuckooParent = none) : Announced flo := by
  obtain ⟨w, hw, _⟩ := NetworkWrapper.wrapYaml_of_lossless h dhtStorageName
  intro isNew
  cases isNew <;> simp [announcements, MessageClosest.toInternOut, hw, hn]

theorem Settles.exists_storeFlo (h : m.Settles flo) (ha : Announced flo) (env : Env) :
    ∃ fuel r, m.storeFlo { env with fuel } flo = some r := by
  obtain ⟨fuel, ⟨m₁, isNew⟩, ht⟩ := h.exists_takeFlo env
  obtain ⟨out, ho⟩ := ha isNew
  exact ⟨fuel, _, storeFlo_eq_some.mpr ⟨m₁, isNew, ht, rfl, ho⟩⟩

theorem Settles.exists_storeFloCuckoo (h : m.Settles fc.1) (ha : Announced fc.1) (env : Env) :
    ∃ fuel r, m.storeFloCuckoo { env with fuel } fc = some r := by
  obtain ⟨fuel, r, hs⟩ := h.exists_storeFlo ha env
  exact ⟨fuel, _, Option.bind_eq_some_iff.mpr ⟨r, hs, rfl⟩⟩

theorem exists_storeFloCuckoo_of_roomy (hf : 0 < env.fuel)
    (h : ∀ s, m.realms.lookup fc.1.realm = some s → s.Roomy fc.1) (ha : Announced fc.1) :
    ∃ m', m.storeFloCuckoo env fc = some m' := by
  have ht : ∃ m₁ isNew, m.takeFlo env fc.1 = some (m₁, isNew) := by
    unfold takeFlo
    cases hl : m.realms.lookup fc.1.realm
    case some s =>
      obtain ⟨isNew, hu⟩ := (h s hl).upsertFlo hf (env.now 0) (env.now 1)
      exact ⟨_, isNew, Option.bind_eq_some_iff.mpr ⟨_, hu, rfl⟩⟩
    case none   =>
      dsimp only
      split
      case h_1 => exact ⟨_, _, rfl⟩
      case h_2 => split <;> exact ⟨_, _, rfl⟩
  obtain ⟨m₁, isNew, ht⟩ := ht
  obtain ⟨out, ho⟩ := ha isNew
  exact ⟨_, Option.bind_eq_some_iff.mpr ⟨_, storeFlo_eq_some.mpr ⟨m₁, isNew, ht, rfl, ho⟩, rfl⟩⟩

theorem exists_storeFloCuckoos_of_room (hf : 0 < env.fuel) (h : m.RoomFor env fcs)
    (ha : ∀ fc ∈ fcs, Announced fc.1) : ∃ m', m.storeFloCuckoos env fcs = some m' := by
  induction fcs generalizing m env
  case nil            => exact ⟨m, rfl⟩
  case cons fc fcs hi =>
    obtain ⟨m₁, hs⟩ := exists_storeFloCuckoo_of_roomy hf h.1 (ha fc List.mem_cons_self)
    obtain ⟨m', hs'⟩ := hi (show 0 < env.next.fuel from hf) (h.2 m₁ hs)
      fun fc' hfc => ha fc' <| List.mem_cons_of_mem _ hfc
    exact ⟨m', storeFloCuckoos_cons.mpr ⟨m₁, hs, hs'⟩⟩

end Returns

end Messages
