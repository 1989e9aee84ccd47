import Fledger.DhtStorage.Eviction

namespace RealmStorage

variable {s s' s₁ : RealmStorage} {id i : FloID} {fs : FloStorage} {flo : Flo} {w n d : Nat}
  {estimated stored : Int} {isNew : Bool}

theorem getFloCuckoo_eq_some {cuckoos : List FloID} : s.getFloCuckoo id = some (flo, cuckoos) ↔
    ∃ fs, s.flos.lookup id = some fs ∧ fs.flo = flo ∧ fs.cuckoos = cuckoos := by
  simp [getFloCuckoo]

section Adopt

variable [Sha256]

theorem frame_adoptCuckoo (s : RealmStorage) (flo : Flo) : Frame s (s.adoptCuckoo flo) := by
  unfold adoptCuckoo
  split
  case h_1 => exact frame_storeCuckooId ..
  case h_2 => exact .refl s

theorem lookup_adoptCuckoo (s : RealmStorage) (flo : Flo) (i : FloID) :
    (s.adoptCuckoo flo).flos.lookup i =
      if flo.floConfig.cuckooParent = some i then (s.flos.lookup i).map (·.withCuckoo flo.floId)
      else s.flos.lookup i := by
  unfold adoptCuckoo
  split
  case h_1 pid hp =>
    simp only [lookup_storeCuckooId, hp, Option.some.injEq, eq_comm]
  case h_2 hp => rw [hp, if_neg (by simp)]

theorem mem_adoptCuckoo : i ∈ (s.adoptCuckoo flo).flos ↔ i ∈ s.flos := by
  simp only [HashMap.mem_iff_lookup, lookup_adoptCuckoo]
  split <;> simp

theorem flo_adoptCuckoo (s : RealmStorage) (flo : Flo) (i : FloID) :
    ((s.adoptCuckoo flo).flos.lookup i).map FloStorage.flo = (s.flos.lookup i).map FloStorage.flo := by
  rw [lookup_adoptCuckoo]
  split
  case isTrue  => simp [Function.comp_def]
  case isFalse => rfl

-- Nothing happens if the parent already knows the flo.
theorem adoptCuckoo_of_known (h : ∀ i fs, flo.floConfig.cuckooParent = some i →
    s.flos.lookup i = some fs → flo.floId ∈ fs.cuckoos) : s.adoptCuckoo flo = s := by
  unfold adoptCuckoo
  split
  case h_2 => rfl
  case h_1 pid hp =>
    unfold storeCuckooId
    split
    case h_2 => rfl
    case h_1 fs hl => rw [if_neg <| not_not.mpr <| h pid fs hp hl]

end Adopt

section Insert

variable [Sha256]

-- Whether `upsert_flo` takes the flo in.
def accepts (s : RealmStorage) (estimated : Int) (flo : Flo) : Bool :=
  match s.flos.lookup flo.floId with
  | some old => old.version < flo.version
  | none     =>
    let floSize := (FloStorage.ofFlo estimated flo).size
    let sizeAbove := List.range (KNode.getDepth s.root flo.floId) |>.map s.sizeAtDepth |>.sum
    decide (s.size + floSize ≤ s.realmConfig.maxSpace) || decide (floSize ≤ sizeAbove)

theorem insertFlo_fst (s : RealmStorage) (estimated stored : Int) (flo : Flo) :
    (s.insertFlo estimated stored flo).1 =
      if s.accepts estimated flo then s.put stored flo else s := by
  unfold insertFlo accepts
  cases s.flos.lookup flo.floId
  case some => simp only [decide_eq_true_eq]; split <;> rfl
  case none =>
    simp only [Bool.or_eq_true, decide_eq_true_eq]
    split_ifs with h₁ h₂ h₃ h₄
    · rfl
    · exact absurd (.inl h₁) h₂
    · rfl
    · exact absurd (.inr h₃) h₄
    · exact absurd ‹_ ∨ _› (by tauto)
    · rfl

-- A flo which is not stored yet is reported as new, no matter whether it is taken in.
theorem insertFlo_snd (s : RealmStorage) (estimated stored : Int) (flo : Flo) :
    (s.insertFlo estimated stored flo).2 =
      (s.accepts estimated flo || decide (flo.floId ∉ s.flos)) := by
  unfold insertFlo accepts
  cases h : s.flos.lookup flo.floId
  case some =>
    have hm : flo.floId ∈ s.flos := HashMap.mem_iff_lookup.mpr ⟨_, h⟩
    simp only [decide_not, hm, decide_true, Bool.not_true, Bool.or_false]
    split <;> simp_all
  case none =>
    have hm : flo.floId ∉ s.flos := HashMap.not_mem_iff_lookup.mpr h
    dsimp only
    split_ifs <;> simp [hm]

theorem accepts_of_lookup (h : s.flos.lookup flo.floId = some fs) :
    s.accepts estimated flo = true ↔ fs.version < flo.version := by
  simp [accepts, h]

-- A flo which is stored already is only taken in if it is newer.
theorem accepts_adoptCuckoo (h : s.flos.lookup flo.floId = some fs) :
    (s.adoptCuckoo flo).accepts estimated flo = true ↔ fs.version < flo.version := by
  have hf := flo_adoptCuckoo s flo flo.floId
  rw [h] at hf
  obtain ⟨fs', hl, hf⟩ := Option.map_eq_some_iff.mp hf
  rw [accepts_of_lookup hl, FloStorage.version, FloStorage.version, hf]

-- The storage in front of the eviction loop.
def taken (s : RealmStorage) (estimated stored : Int) (flo : Flo) : RealmStorage :=
  let s := s.adoptCuckoo flo
  if s.accepts estimated flo then s.put stored flo else s

-- Whether `upsert_flo` refuses the flo for its size.
def oversized (s : RealmStorage) (flo : Flo) : Prop :=
  s.realmConfig.maxSpace < flo.size * 3

instance : Decidable (s.oversized flo) :=
  inferInstanceAs (Decidable (_ < _))

theorem upserts_of_oversized (h : s.oversized flo) :
    s.Upserts estimated stored flo s' isNew ↔ s' = s ∧ isNew = false := by
  have h : flo.size * 3 > s.realmConfig.maxSpace := h
  simp [Upserts, upsertFlo, h, eq_comm]

theorem upserts_iff (h : ¬s.oversized flo) :
    s.Upserts estimated stored flo s' isNew ↔
      isNew = ((s.adoptCuckoo flo).accepts estimated flo || decide (flo.floId ∉ s.flos)) ∧
      Trims (s.taken estimated stored flo) s' := by
  have h : ¬flo.size * 3 > s.realmConfig.maxSpace := h
  simp only [Upserts, upsertFlo, h, if_false, insertFlo_fst, insertFlo_snd, Option.map_eq_some_iff,
    Prod.mk.injEq, mem_adoptCuckoo]
  constructor
  case mp =>
    intro ⟨fuel, _, hr, hs, hb⟩
    exact ⟨hb.symm, fuel, hs ▸ hr⟩
  case mpr =>
    intro ⟨hb, fuel, hr⟩
    exact ⟨fuel, _, hr, rfl, hb.symm⟩

theorem frame_taken (s : RealmStorage) (estimated stored : Int) (flo : Flo) :
    Frame s (s.taken estimated stored flo) := by
  have h := frame_adoptCuckoo s flo
  unfold taken
  dsimp only
  split
  case isTrue  => exact h.trans (frame_put ..)
  case isFalse => exact h

-- What is stored is replaced by a newer version, and by nothing else.
theorem lookup_taken (hl : s.flos.lookup i = some fs) (estimated stored : Int) (flo : Flo) :
    (s.taken estimated stored flo).flos.lookup i =
      if flo.floId = i ∧ fs.version < flo.version then some (.ofFlo stored flo)
      else (s.adoptCuckoo flo).flos.lookup i := by
  unfold taken
  by_cases hi : flo.floId = i
  case pos =>
    subst hi
    by_cases hv : fs.version < flo.version
    case pos => simp [accepts_adoptCuckoo hl |>.mpr hv, lookup_put, hv]
    case neg => simp [mt (accepts_adoptCuckoo hl).mp hv, hv]
  case neg =>
    have hn : ¬(flo.floId = i ∧ fs.version < flo.version) := fun h => hi h.left
    rw [if_neg hn]
    dsimp only
    split
    case isTrue  => rw [lookup_put, if_neg (Ne.symm hi)]
    case isFalse => rfl

-- If there is room, then nothing is evicted.
theorem upserts_taken (ho : ¬s.oversized flo)
    (hb : (s.taken estimated stored flo).size ≤ s.realmConfig.maxSpace) :
    ∃ isNew, s.Upserts estimated stored flo (s.taken estimated stored flo) isNew := by
  rw [← (frame_taken s estimated stored flo).realmConfig] at hb
  exact ⟨_, (upserts_iff ho).mpr ⟨rfl, .stop hb⟩⟩

theorem Wf.taken (h : s.Wf) (estimated stored : Int) (flo : Flo) :
    (s.taken estimated stored flo).Wf := by
  unfold RealmStorage.taken
  dsimp only
  split
  case isTrue  => exact (h.adoptCuckoo flo).put stored flo
  case isFalse => exact h.adoptCuckoo flo

theorem Wf.upserts (h : s.Wf) (hu : s.Upserts estimated stored flo s' isNew) : s'.Wf := by
  by_cases ho : s.oversized flo
  case pos => exact (upserts_of_oversized ho).mp hu |>.left ▸ h
  case neg => exact (upserts_iff ho).mp hu |>.right |>.trimmed (h.taken ..) |>.wf

theorem Wf.frame_upserts (h : s.Wf) (hu : s.Upserts estimated stored flo s' isNew) :
    Frame s s' := by
  by_cases ho : s.oversized flo
  case pos => exact (upserts_of_oversized ho).mp hu |>.left ▸ .refl s
  case neg =>
    have ht := (upserts_iff ho).mp hu |>.right |>.trimmed (h.taken ..)
    exact (frame_taken ..).trans ht.frame

end Insert

section Lookup

variable [Sha256]

-- An entry is either the flo itself, which is newer than what was there, or it was there already.
theorem Wf.lookup_upserts (h : s.Wf) (hu : s.Upserts estimated stored flo s' isNew)
    (hl : s'.flos.lookup i = some fs) :
    (i = flo.floId ∧ fs = .ofFlo stored flo ∧
      ∀ fs', s.flos.lookup i = some fs' → fs'.version < flo.version) ∨
    ∃ fs', s.flos.lookup i = some fs' ∧ fs.flo = fs'.flo := by
  by_cases ho : s.oversized flo
  case pos => exact .inr ⟨fs, (upserts_of_oversized ho).mp hu |>.left ▸ hl, rfl⟩
  case neg =>
    have htr := (upserts_iff ho).mp hu |>.right |>.trimmed (h.taken ..)
    have hl := htr.mem (HashMap.mem_iff_lookup.mpr ⟨fs, hl⟩) ▸ hl
    have hadopt : (s.adoptCuckoo flo).flos.lookup i = some fs →
        ∃ fs', s.flos.lookup i = some fs' ∧ fs.flo = fs'.flo := by
      intro hl
      have hf := flo_adoptCuckoo s flo i
      rw [hl] at hf
      have ⟨fs', hl', hf⟩ := Option.map_eq_some_iff.mp hf.symm
      exact ⟨fs', hl', hf.symm⟩
    unfold RealmStorage.taken at hl
    dsimp only at hl
    split at hl
    case isFalse => exact .inr <| hadopt hl
    case isTrue hacc =>
      rw [lookup_put] at hl
      split at hl
      case isFalse => exact .inr <| hadopt hl
      case isTrue hi =>
        cases hl
        refine .inl ⟨hi, rfl, fun fs' hl' => ?_⟩
        exact (accepts_adoptCuckoo <| hi ▸ hl').mp hacc

end Lookup

section Reachable

variable [Sha256]

-- What can happen to a storage.
inductive Step : RealmStorage → RealmStorage → Prop
  | upsertFlo {s s' : RealmStorage} {estimated stored : Int} {flo : Flo} {isNew : Bool} :
    s.Upserts estimated stored flo s' isNew → Step s s'
  | storeCuckooId {s : RealmStorage} (parent cuckoo) : Step s (s.storeCuckooId parent cuckoo)
  | storeCuckooIds {s : RealmStorage} (parent cuckoos) : Step s (s.storeCuckooIds parent cuckoos)

-- The storages which can come up.
inductive Reachable : RealmStorage → Prop
  | new (dhtConfig root now realm) : Reachable (.new dhtConfig root now realm)
  | step {s s' : RealmStorage} : Reachable s → Step s s' → Reachable s'

theorem Reachable.taken (h : Reachable s) (ho : ¬s.oversized flo)
    (hb : (s.taken estimated stored flo).size ≤ s.realmConfig.maxSpace) :
    Reachable (s.taken estimated stored flo) := by
  obtain ⟨_, hu⟩ := upserts_taken ho hb
  exact h.step <| .upsertFlo hu

theorem Wf.step (h : s.Wf) (hs : Step s s') : s'.Wf := by
  cases hs
  case upsertFlo hu   => exact h.upserts hu
  case storeCuckooId  => exact h.storeCuckooId ..
  case storeCuckooIds => exact h.storeCuckooIds ..

theorem Reachable.wf (h : Reachable s) : s.Wf := by
  induction h
  case new        => exact wf_new ..
  case step hs hi => exact hi.step hs

omit [Sha256] in
-- A property of all entries, which holds for the entry of a flo which was just put, and which is kept
-- by `store_cuckoo_id`.
def Each (P : FloStorage → Prop) (s : RealmStorage) : Prop :=
  ∀ id fs, s.flos.lookup id = some fs → P fs

section Each

variable {P : FloStorage → Prop}

omit [Sha256] in
theorem Each.storeCuckooId (h : s.Each P) (grow : ∀ fs cuckoo, P fs → P (fs.withCuckoo cuckoo))
    (parent cuckoo : FloID) : (s.storeCuckooId parent cuckoo).Each P := by
  intro id fs hl
  rw [lookup_storeCuckooId] at hl
  split at hl
  case isFalse => exact h id fs hl
  case isTrue  =>
    obtain ⟨fs', hl', rfl⟩ := Option.map_eq_some_iff.mp hl
    exact grow _ _ <| h id fs' hl'

omit [Sha256] in
theorem Each.storeCuckooIds (h : s.Each P) (grow : ∀ fs cuckoo, P fs → P (fs.withCuckoo cuckoo))
    (parent : FloID) (cuckoos : List FloID) : (s.storeCuckooIds parent cuckoos).Each P := by
  unfold RealmStorage.storeCuckooIds
  induction cuckoos generalizing s
  case nil         => exact h
  case cons c _ hi => exact hi <| h.storeCuckooId grow parent c

theorem Each.put (h : s.Each P) (new : ∀ now flo, P (.ofFlo now flo)) (now : Int) (flo : Flo) :
    (s.put now flo).Each P := by
  intro id fs hl
  rw [lookup_put] at hl
  split at hl
  case isFalse => exact h id fs hl
  case isTrue  => exact Option.some.inj hl ▸ new now flo

theorem Each.upserts (h : s.Each P) (hw : s.Wf) (new : ∀ now flo, P (.ofFlo now flo))
    (grow : ∀ fs cuckoo, P fs → P (fs.withCuckoo cuckoo))
    (hu : s.Upserts estimated stored flo s' isNew) : s'.Each P := by
  intro id fs hl
  by_cases ho : s.oversized flo
  case pos => exact h id fs <| (upserts_of_oversized ho).mp hu |>.left ▸ hl
  case neg =>
    have ht := (upserts_iff ho).mp hu |>.right |>.trimmed (hw.taken ..)
    have hadopt : (s.adoptCuckoo flo).Each P := by
      unfold adoptCuckoo
      split
      case h_1 => exact h.storeCuckooId grow _ _
      case h_2 => exact h
    rw [ht.mem (HashMap.mem_iff_lookup.mpr ⟨fs, hl⟩)] at hl
    unfold taken at hl
    dsimp only at hl
    split at hl
    case isTrue  => exact hadopt.put new _ _ id fs hl
    case isFalse => exact hadopt id fs hl

theorem Reachable.each (h : Reachable s) (new : ∀ now flo, P (.ofFlo now flo))
    (grow : ∀ fs cuckoo, P fs → P (fs.withCuckoo cuckoo)) : s.Each P := by
  induction h
  case new =>
    refine Each.put (fun id fs hl => ?_) new _ _
    simp at hl
  case step hr hs hi =>
    cases hs
    case upsertFlo hu   => exact hi.upserts hr.wf new grow hu
    case storeCuckooId  => exact hi.storeCuckooId grow _ _
    case storeCuckooIds => exact hi.storeCuckooIds grow _ _

end Each

omit [Sha256] in
theorem flo_storeCuckooIds (s : RealmStorage) (parent : FloID) (cuckoos : List FloID) (i : FloID) :
    ((s.storeCuckooIds parent cuckoos).flos.lookup i).map FloStorage.flo =
      (s.flos.lookup i).map FloStorage.flo := by
  unfold storeCuckooIds
  induction cuckoos generalizing s
  case nil => rfl
  case cons c cuckoos hi =>
    refine (hi _).trans ?_
    rw [lookup_storeCuckooId]
    split
    case isTrue  => simp [Function.comp_def]
    case isFalse => rfl

-- Versions only grow, as long as a flo stays stored.
theorem Wf.version_le (h : s.Wf) (hs : Step s s') {fs' : FloStorage}
    (hl : s.flos.lookup i = some fs) (hl' : s'.flos.lookup i = some fs') :
    fs.version ≤ fs'.version := by
  have hcuckoos (parent : FloID) (cuckoos : List FloID)
      (hl' : (s.storeCuckooIds parent cuckoos).flos.lookup i = some fs') : fs.version ≤ fs'.version := by
    have hf := flo_storeCuckooIds s parent cuckoos i
    rw [hl, hl', Option.map_some, Option.map_some, Option.some.injEq] at hf
    rw [FloStorage.version, FloStorage.version, hf]
    exact UInt32.le_refl _
  cases hs
  case storeCuckooIds parent cuckoos => exact hcuckoos parent cuckoos hl'
  case storeCuckooId parent cuckoo   => exact hcuckoos parent [cuckoo] hl'
  case upsertFlo hu =>
    rcases h.lookup_upserts hu hl' with ⟨_, hfs, hv⟩ | ⟨fs₀, hl₀, hf⟩
    · exact UInt32.le_of_lt (hfs ▸ hv fs hl)
    · rw [hl] at hl₀
      cases hl₀
      rw [FloStorage.version, FloStorage.version, hf]
      exact UInt32.le_refl _

end Reachable

end RealmStorage
