import Fledger.DhtStorage.Upsert

namespace RealmStorage

variable [Sha256] {s s' s'' s₁ : RealmStorage} {id i : FloID} {fs : FloStorage} {flo : Flo}
  {n d : Nat} {estimated stored : Int} {isNew : Bool}

-- The flo is stored, with the same content.
def Stored (s : RealmStorage) (flo : Flo) : Prop :=
  ∃ fs, s.flos.lookup flo.floId = some fs ∧ fs.flo = flo

omit [Sha256] in
-- The same flos are stored.
def SameFlos (s s' : RealmStorage) : Prop :=
  ∀ id, (s'.flos.lookup id).map FloStorage.flo = (s.flos.lookup id).map FloStorage.flo

-- The size of the storage once the flo has replaced its older version.
def loadWith (s : RealmStorage) (stored : Int) (flo : Flo) : Nat :=
  s.size - s.entrySize flo.floId + (FloStorage.ofFlo stored flo).size

-- What the loop would rather evict than a flo which was just put.
def inFront (s : RealmStorage) (id : FloID) : List (FloID × Nat) :=
  if id = s.realmId then s.items else s.itemsBelow (KNode.getDepth s.root id)

section Put

theorem Wf.size_put_eq (h : s.Wf) (stored : Int) (flo : Flo) :
    (s.put stored flo).size = s.loadWith stored flo := by
  have hp := h.size_put stored flo
  have hr := h.size_removeEntry flo.floId
  unfold loadWith
  omega

theorem Wf.itemsAt_put_of_ne (h : s.Wf) (hd : flo.floId = s.realmId ∨
    d ≠ KNode.getDepth s.root flo.floId) : (s.put stored flo).itemsAt d = s.itemsAt d := by
  have he : (s.put stored flo).evictableAt d = s.evictableAt d := by
    simp only [evictableAt, h.idsAt_put, (frame_put s stored flo).realmId]
    have hid : flo.floId ∈ s.idsAt d → flo.floId = s.realmId := fun hm =>
      hd.resolve_right <| not_not.mpr (h.indexed.mp hm).right
    split
    case isTrue hdd =>
      have hr := hd.resolve_right <| not_not.mpr hdd
      simp [List.filter_append, List.filter_filter, hr]
    case isFalse =>
      rw [List.filter_filter]
      refine List.filter_congr fun i hm => ?_
      simp only [ne_eq, decide_not, Bool.and_eq_left_iff_imp, Bool.not_eq_true',
        decide_eq_false_iff_not]
      exact fun hr he => hr <| he ▸ hid (he ▸ hm)
  simp only [itemsAt, he]
  refine List.map_congr_left fun i hm => ?_
  have hne : i ≠ flo.floId := by
    intro hi
    simp only [List.mem_reverse, evictableAt, List.mem_filter, h.indexed, decide_eq_true_eq] at hm
    rcases hd with hr | hd
    · exact hm.right <| hi.trans hr
    · exact hd <| hi ▸ hm.left.right
  rw [entrySize_put_of_ne hne]

theorem Wf.itemsBelow_put (h : s.Wf) (hn : n ≤ KNode.getDepth s.root flo.floId) :
    (s.put stored flo).itemsBelow n = s.itemsBelow n := by
  refine List.flatMap_congr fun d hd => h.itemsAt_put_of_ne <| .inr ?_
  have hd := List.mem_range.mp hd
  omega

omit [Sha256] in
theorem itemsBelow_prefix (s : RealmStorage) {m n : Nat} (h : m ≤ n) :
    s.itemsBelow m <+: s.itemsBelow n := by
  have ⟨k, hk⟩ := Nat.exists_eq_add_of_le h
  rw [itemsBelow, itemsBelow, hk, List.range_add, List.flatMap_append]
  exact List.prefix_append ..

omit [Sha256] in
theorem itemsBelow_succ (s : RealmStorage) (n : Nat) :
    s.itemsBelow n.succ = s.itemsBelow n ++ s.itemsAt n := by
  rw [itemsBelow, List.range_succ, List.flatMap_append, List.flatMap_singleton, itemsBelow]

theorem Wf.items_put_of_eq (h : s.Wf) (stored : Int) (hr : flo.floId = s.realmId) :
    (s.put stored flo).items = s.inFront flo.floId := by
  rw [inFront, if_pos hr]
  exact List.flatMap_congr fun d _ => h.itemsAt_put_of_ne (.inl hr)

-- Among the entries of its depth, the flo is the first one to go.
theorem Wf.items_put_of_ne (h : s.Wf) (stored : Int) (hr : flo.floId ≠ s.realmId) :
    ∃ w q, (s.put stored flo).items = s.inFront flo.floId ++ (flo.floId, w) :: q := by
  obtain ⟨q, hq⟩ := itemsBelow_prefix (s.put stored flo) <|
    Nat.succ_le_of_lt (KNode.getDepth_lt s.root flo.floId)
  have he : ∃ w q, (s.put stored flo).itemsAt (KNode.getDepth s.root flo.floId) =
      (flo.floId, w) :: q := by
    simp [itemsAt, evictableAt, h.idsAt_put, (frame_put s stored flo).realmId, List.filter_append,
      hr]
  obtain ⟨w, q', he⟩ := he
  refine ⟨w, q' ++ q, ?_⟩
  rw [inFront, if_neg hr, items, ← hq, itemsBelow_succ, he, h.itemsBelow_put le_rfl]
  simp

theorem Wf.inFront_prefix (h : s.Wf) (stored : Int) (flo : Flo) :
    ∃ q, (s.put stored flo).items = s.inFront flo.floId ++ q := by
  by_cases hr : flo.floId = s.realmId
  case pos => exact ⟨[], by rw [h.items_put_of_eq stored hr, List.append_nil]⟩
  case neg =>
    have ⟨w, q, hq⟩ := h.items_put_of_ne stored hr
    exact ⟨_, hq⟩

theorem Wf.ahead_put (h : s.Wf) (stored : Int) (hr : flo.floId ≠ s.realmId) :
    (s.put stored flo).ahead flo.floId = s.inFront flo.floId := by
  have ⟨w, q, hq⟩ := h.items_put_of_ne stored hr
  have hne : ∀ i ∈ s.inFront flo.floId, decide (i.1 ≠ flo.floId) = true := by
    intro ⟨i, v⟩ hi
    rw [inFront, if_neg hr, h.mem_itemsBelow] at hi
    exact decide_eq_true fun he : i = flo.floId =>
      absurd hi.right.right.right (he ▸ Nat.lt_irrefl _)
  rw [ahead, hq, List.takeWhile_append_of_pos hne, List.takeWhile_cons_of_neg (by simp),
    List.append_nil]

-- The flo survives the loop exactly if it is enough to evict what is in front of it.
theorem Trims.mem_put_iff (ht : Trims (s.put stored flo) s') (h : s.Wf) : flo.floId ∈ s'.flos ↔
    s.loadWith stored flo ≤ s.realmConfig.maxSpace + Queue.weight (s.inFront flo.floId) := by
  have hp := h.put stored flo
  have hf := frame_put s stored flo
  simp only [ht.mem_iff hp, mem_put, true_or, true_and, Spares, hf.realmId, hf.realmConfig,
    h.size_put_eq]
  by_cases hr : flo.floId = s.realmId
  case neg => simp only [hr, false_or, h.ahead_put stored hr]
  case pos =>
    have hl := (Queue.trims_iff (show evictionQueue.Inv _ from hp)).mp ⟨s', ht⟩
    change (s.put stored flo).size ≤ (s.put stored flo).realmConfig.maxSpace +
      Queue.weight (s.put stored flo).items at hl
    rw [h.size_put_eq, hf.realmConfig, h.items_put_of_eq stored hr] at hl
    simp only [hr, true_or, true_iff]
    exact hr ▸ hl

end Put

section Again

-- Whether the call which follows on this one has nothing to do: it reports nothing, and it leaves
-- the same flos.
def Settled (s : RealmStorage) (flo : Flo) : Prop :=
  ∀ estimated stored, ∃ s', s.Upserts estimated stored flo s' false ∧ SameFlos s s'

theorem settled_of_oversized (h : s.oversized flo) : s.Settled flo :=
  fun _ _ => ⟨s, (upserts_of_oversized h).mpr ⟨rfl, rfl⟩, fun _ => rfl⟩

-- A flo which is not stored is always reported.
theorem not_settled_of_not_mem (ho : ¬s.oversized flo) (hm : flo.floId ∉ s.flos) :
    ¬s.Settled flo := by
  intro h
  have ⟨_, hu, _⟩ := h 0 0
  simp [upserts_iff ho, hm] at hu

theorem taken_of_stale (h : (s.adoptCuckoo flo).accepts estimated flo = false) :
    s.taken estimated stored flo = s.adoptCuckoo flo := by
  simp [taken, h]

theorem taken_of_accepts (h : (s.adoptCuckoo flo).accepts estimated flo = true) :
    s.taken estimated stored flo = (s.adoptCuckoo flo).put stored flo := by
  simp [taken, h]

-- Evicting something changes the stored flos.
theorem Trims.not_sameFlos (ht : Trims s s') (h : s.Wf) (hl : s.realmConfig.maxSpace < s.size) :
    ¬SameFlos s s' := by
  intro hs
  have ⟨n, hi, hw, hb, hm⟩ := Queue.Trims.exists_take ht h
  change s'.items = s.items.drop n at hi
  change s'.size + Queue.weight (s.items.take n) = s.size at hw
  change s'.size ≤ s.realmConfig.maxSpace at hb
  have htr := ht.trimmed h
  have hn : n ≠ 0 := by
    intro hn
    simp only [hn, List.take_zero, Queue.weight_nil] at hw
    omega
  cases hq : s.items
  case nil =>
    simp only [hq, List.take_nil, Queue.weight_nil] at hw
    omega
  case cons i q =>
    have hmi := h.mem_items.mp <| hq ▸ List.mem_cons_self (a := i) (l := q)
    have hmem : i.1 ∈ s'.flos := by
      have ⟨fs, hfs⟩ := HashMap.mem_iff_lookup.mp hmi.left
      have hsi := hs i.1
      rw [hfs] at hsi
      have ⟨fs', hfs', _⟩ := Option.map_eq_some_iff.mp hsi
      exact HashMap.mem_iff_lookup.mpr ⟨fs', hfs'⟩
    have hmi' := htr.wf.mem_items.mpr ⟨hmem, htr.frame.realmId ▸ hmi.right.left, rfl⟩
    have hnd := h.nodup_itemsBelow 256
    have ⟨k, hk⟩ := Nat.exists_eq_succ_of_ne_zero hn
    rw [hi, hq, hk, List.drop_succ_cons] at hmi'
    rw [← items, hq, List.map_cons, List.nodup_cons] at hnd
    exact hnd.left <| List.mem_map.mpr ⟨_, List.mem_of_mem_drop hmi', rfl⟩

-- Storing a flo again only matters if its parent forgets it.
theorem settled_iff (h : s.Wf) (ho : ¬s.oversized flo) (hl : s.flos.lookup flo.floId = some fs)
    (hv : ¬fs.version < flo.version) :
    s.Settled flo ↔ (s.adoptCuckoo flo).size ≤ s.realmConfig.maxSpace := by
  have hm : flo.floId ∈ s.flos := HashMap.mem_iff_lookup.mpr ⟨fs, hl⟩
  have hacc (estimated : Int) : (s.adoptCuckoo flo).accepts estimated flo = false :=
    Bool.eq_false_iff.mpr <| (accepts_adoptCuckoo hl).not.mpr hv
  have hu (estimated stored : Int) (s'' : RealmStorage) :
      s.Upserts estimated stored flo s'' false ↔ Trims (s.adoptCuckoo flo) s'' := by
    simp [upserts_iff ho, hacc, hm, taken_of_stale (hacc estimated)]
  have ha := h.adoptCuckoo flo
  have hc := (frame_adoptCuckoo s flo).realmConfig
  simp only [Settled, hu]
  constructor
  case mp =>
    intro hs
    obtain ⟨s'', ht, hs⟩ := hs 0 0
    refine Nat.le_of_not_lt fun hlt => Trims.not_sameFlos ht ha (hc ▸ hlt) fun i => ?_
    exact (hs i).trans (flo_adoptCuckoo s flo i).symm
  case mpr =>
    intro hs _ _
    have hb : (s.adoptCuckoo flo).size ≤ (s.adoptCuckoo flo).realmConfig.maxSpace := hc ▸ hs
    exact ⟨s.adoptCuckoo flo, .stop hb, flo_adoptCuckoo s flo⟩

end Again

section Honours

theorem known_adoptCuckoo (hp : flo.floConfig.cuckooParent = some i)
    (hl : (s.adoptCuckoo flo).flos.lookup i = some fs) : flo.floId ∈ fs.cuckoos := by
  rw [lookup_adoptCuckoo, if_pos hp] at hl
  have ⟨_, _, hw⟩ := Option.map_eq_some_iff.mp hl
  exact hw ▸ FloStorage.mem_withCuckoo ..

omit [Sha256] in
theorem Trims.lookup_of_some [Sha256] (ht : Trims s s') (h : s.Wf)
    (hl : s'.flos.lookup i = some fs) : s.flos.lookup i = some fs :=
  (ht.trimmed h).mem (HashMap.mem_iff_lookup.mpr ⟨fs, hl⟩) ▸ hl

theorem Trimmed.lookup_of_put (h : Trimmed (s.put stored flo) s') (hm : flo.floId ∈ s'.flos) :
    s'.flos.lookup flo.floId = some (.ofFlo stored flo) := by
  rw [h.mem hm, lookup_put, if_pos rfl]

-- The entry of a flo which was just put, as it is when the same flo is upserted again: such a flo
-- can be its own parent if its id is forced.
def reentered (stored : Int) (flo : Flo) : FloStorage :=
  let fs := FloStorage.ofFlo stored flo
  if flo.floConfig.cuckooParent = some flo.floId then fs.withCuckoo flo.floId else fs

theorem Trims.size_adoptCuckoo (ht : Trims ((s.adoptCuckoo flo).put stored flo) s') (h : s.Wf)
    (hm : flo.floId ∈ s'.flos) : (s'.adoptCuckoo flo).size + (FloStorage.ofFlo stored flo).size =
      s'.size + (reentered stored flo).size := by
  have hp := (h.adoptCuckoo flo).put stored flo
  have htr := ht.trimmed hp
  have hl := htr.lookup_of_put hm
  unfold reentered
  dsimp only
  split
  case isTrue hself =>
    have hs := htr.wf.size_storeCuckooId flo.floId flo.floId
    have he : (s'.storeCuckooId flo.floId flo.floId).flos.lookup flo.floId =
        some ((FloStorage.ofFlo stored flo).withCuckoo flo.floId) := by
      rw [lookup_storeCuckooId, if_pos rfl, hl, Option.map_some]
    rw [entrySize_of_lookup hl, entrySize_of_lookup he] at hs
    simpa only [adoptCuckoo, hself] using hs
  case isFalse hself =>
    rw [adoptCuckoo_of_known]
    intro i fs hpar hli
    have hli := ht.lookup_of_some hp hli
    rw [lookup_put, if_neg fun hi : i = flo.floId => hself (hi ▸ hpar)] at hli
    exact known_adoptCuckoo hpar hli

-- When `upsert_flo` keeps what it reports: a flo which is too large is refused and not reported. A
-- flo which is accepted is not evicted again, and storing it once more does not need more space. Of
-- a flo which is not accepted, a version is stored which is not evicted.
def Honours (s : RealmStorage) (estimated stored : Int) (flo : Flo) : Prop :=
  s.oversized flo ∨
  let s' := s.adoptCuckoo flo
  if s'.accepts estimated flo then
    let budget := s.realmConfig.maxSpace
    let load := s'.loadWith stored flo
    let front := s'.inFront flo.floId
    load ≤ budget + Queue.weight front ∧
    ∀ r, r <+: front → load ≤ budget + Queue.weight r → load + (reentered stored flo).size ≤
      budget + Queue.weight r + (FloStorage.ofFlo stored flo).size
  else flo.floId ∈ s.flos ∧ s'.Spares flo.floId

theorem Wf.not_oversized_upserts (h : s.Wf) (hu : s.Upserts estimated stored flo s' isNew)
    (ho : ¬s.oversized flo) : ¬s'.oversized flo := by
  rwa [oversized, (h.frame_upserts hu).realmConfig]

theorem not_stored_of_accepts (h : (s.adoptCuckoo flo).accepts estimated flo = true) :
    ¬s.Stored flo := by
  rintro ⟨fs, hl, hf⟩
  have hv := (accepts_adoptCuckoo hl).mp h
  rw [FloStorage.version, hf] at hv
  exact UInt32.lt_irrefl _ hv

theorem Trimmed.stored_iff_mem (h : Trimmed (s.put stored flo) s') :
    s'.Stored flo ↔ flo.floId ∈ s'.flos := by
  constructor
  case mp  =>
    rintro ⟨fs, hl, _⟩
    exact HashMap.mem_iff_lookup.mpr ⟨fs, hl⟩
  case mpr => exact fun hm => ⟨_, h.lookup_of_put hm, rfl⟩

theorem report_iff_of_stale (h : s.Wf) (ho : ¬s.oversized flo)
    (hacc : (s.adoptCuckoo flo).accepts estimated flo = false)
    (hu : s.Upserts estimated stored flo s' isNew) :
    ((isNew = true ↔ s'.Stored flo ∧ ¬s.Stored flo) ∧ s'.Settled flo) ↔
      flo.floId ∈ s.flos ∧ (s.adoptCuckoo flo).Spares flo.floId := by
  have ha := h.adoptCuckoo flo
  have ⟨hnew, ht⟩ := (upserts_iff ho).mp hu
  rw [taken_of_stale hacc] at ht
  rw [hacc, Bool.false_or] at hnew
  have hmem : flo.floId ∈ s'.flos ↔ flo.floId ∈ s.flos ∧ (s.adoptCuckoo flo).Spares flo.floId := by
    rw [ht.mem_iff ha, mem_adoptCuckoo]
  have ho' := h.not_oversized_upserts hu ho
  by_cases hm : flo.floId ∈ s'.flos
  case neg =>
    simp only [← hmem, hm, iff_false, not_and]
    exact fun _ => not_settled_of_not_mem ho' hm
  case pos =>
    simp only [← hmem, hm, iff_true]
    have ⟨fs, hl⟩ := HashMap.mem_iff_lookup.mp hm
    have hla := ht.lookup_of_some ha hl
    have hv : (s.adoptCuckoo flo).accepts estimated flo = true ↔ fs.version < flo.version :=
      accepts_of_lookup hla
    rw [hacc] at hv
    constructor
    case left =>
      simp only [hnew, (hmem.mp hm).left, not_true_eq_false, decide_false, Bool.false_eq_true,
        false_iff, not_and, not_not]
      intro ⟨fs', hl', hf⟩
      have hfs := flo_adoptCuckoo s flo flo.floId
      rw [ht.lookup_of_some ha hl', Option.map_some, hf] at hfs
      have ⟨fs₀, hl₀, hf₀⟩ := Option.map_eq_some_iff.mp hfs.symm
      exact ⟨fs₀, hl₀, hf₀⟩
    case right =>
      refine settled_iff (ht.trimmed ha).wf ho' hl (by simpa using hv) |>.mpr ?_
      have hk : s'.adoptCuckoo flo = s' := adoptCuckoo_of_known fun i fs hp hli =>
        known_adoptCuckoo hp (ht.lookup_of_some ha hli)
      rw [hk, (h.frame_upserts hu).realmConfig, ← (frame_adoptCuckoo s flo).realmConfig]
      exact ht.size_le ha

theorem report_iff_of_accepted (h : s.Wf) (ho : ¬s.oversized flo)
    (hacc : (s.adoptCuckoo flo).accepts estimated flo = true)
    (hu : s.Upserts estimated stored flo s' isNew) :
    ((isNew = true ↔ s'.Stored flo ∧ ¬s.Stored flo) ∧ s'.Settled flo) ↔
      s.Honours estimated stored flo := by
  have ha := h.adoptCuckoo flo
  have hp := ha.put stored flo
  obtain ⟨hnew, ht⟩ := (upserts_iff ho).mp hu
  rw [taken_of_accepts hacc] at ht
  have htr := ht.trimmed hp
  have hc := (frame_adoptCuckoo s flo).realmConfig
  have hcp := (frame_put (s.adoptCuckoo flo) stored flo).realmConfig
  have hnot := not_stored_of_accepts hacc
  have hmem := ht.mem_put_iff ha
  rw [hc] at hmem
  have ho' := h.not_oversized_upserts hu ho
  simp only [hnew, hacc, Bool.true_or, hnot, not_false_eq_true, and_true, true_iff,
    htr.stored_iff_mem, Honours, ho, false_or, if_true, ← hmem]
  refine and_congr_right fun hm => ?_
  have hl := htr.lookup_of_put hm
  have hs := ht.size_adoptCuckoo h hm
  obtain ⟨q, hq⟩ := ha.inFront_prefix stored flo
  have hload : evictionQueue.load ((s.adoptCuckoo flo).put stored flo) =
      (s.adoptCuckoo flo).loadWith stored flo := ha.size_put_eq stored flo
  have hbudget : evictionQueue.budget ((s.adoptCuckoo flo).put stored flo) =
      s.realmConfig.maxSpace := by rw [← hc, ← hcp]; rfl
  have hslack := Queue.Trims.slack_iff (a := (reentered stored flo).size)
    (b := (FloStorage.ofFlo stored flo).size) ht hp hq (by rw [hload, hbudget]; exact hmem.mp hm)
  rw [settled_iff htr.wf ho' hl (UInt32.lt_irrefl _), htr.frame.realmConfig, hcp, hc]
  rw [hload, hbudget] at hslack
  rw [← hslack]
  change _ ↔ s'.size + _ ≤ _
  omega

-- What the call reports is true, and the next call with the same flo has nothing to do, exactly if
-- the flo is kept.
theorem report_iff (h : s.Wf) (hu : s.Upserts estimated stored flo s' isNew) :
    ((isNew = true ↔ s'.Stored flo ∧ ¬s.Stored flo) ∧ s'.Settled flo) ↔
      s.Honours estimated stored flo := by
  by_cases ho : s.oversized flo
  case pos =>
    have ⟨hs, hnew⟩ := (upserts_of_oversized ho).mp hu
    simp [Honours, ho, hs, hnew, settled_of_oversized ho]
  case neg =>
    cases hacc : (s.adoptCuckoo flo).accepts estimated flo
    case true  => exact report_iff_of_accepted h ho hacc hu
    case false =>
      rw [report_iff_of_stale h ho hacc hu]
      simp [Honours, ho, hacc]

end Honours

end RealmStorage
