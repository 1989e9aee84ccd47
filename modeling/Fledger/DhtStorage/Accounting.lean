import Fledger.DhtStorage.Core

namespace FloStorage

-- The entry after `store_cuckoo_id`.
def withCuckoo (fs : FloStorage) (cuckoo : FloID) : FloStorage :=
  if cuckoo ∉ fs.cuckoos then { fs with cuckoos := fs.cuckoos ++ [cuckoo] } else fs

@[simp]
theorem withCuckoo_flo (fs : FloStorage) (cuckoo : FloID) : (fs.withCuckoo cuckoo).flo = fs.flo := by
  unfold withCuckoo
  split <;> rfl

theorem mem_withCuckoo (fs : FloStorage) (cuckoo : FloID) :
    cuckoo ∈ (fs.withCuckoo cuckoo).cuckoos := by
  unfold withCuckoo
  split
  case isTrue    => simp
  case isFalse h => exact not_not.mp h

theorem withCuckoo_of_mem {fs : FloStorage} {cuckoo : FloID} (h : cuckoo ∈ fs.cuckoos) :
    fs.withCuckoo cuckoo = fs :=
  if_neg <| not_not.mpr h

end FloStorage

namespace RealmStorage

variable {s s' : RealmStorage} {id i : FloID} {fs : FloStorage} {flo : Flo} {d : Nat} {now : Int}

-- What no operation changes.
structure Frame (s s' : RealmStorage) : Prop where
  dhtConfig   : s'.dhtConfig = s.dhtConfig
  realmConfig : s'.realmConfig = s.realmConfig
  realmId     : s'.realmId = s.realmId
  root        : s'.root = s.root

theorem Frame.refl (s : RealmStorage) : Frame s s :=
  ⟨rfl, rfl, rfl, rfl⟩

theorem Frame.trans {s₁ s₂ s₃ : RealmStorage} (h₁ : Frame s₁ s₂) (h₂ : Frame s₂ s₃) :
    Frame s₁ s₃ where
  dhtConfig   := h₂.dhtConfig.trans h₁.dhtConfig
  realmConfig := h₂.realmConfig.trans h₁.realmConfig
  realmId     := h₂.realmId.trans h₁.realmId
  root        := h₂.root.trans h₁.root

-- The size of an entry, which is zero if there is none.
def entrySize (s : RealmStorage) (id : FloID) : Nat :=
  ((s.flos.lookup id).map FloStorage.size).getD 0

theorem entrySize_of_lookup (h : s.flos.lookup id = some fs) : s.entrySize id = fs.size := by
  simp [entrySize, h]

theorem entrySize_eq_zero (h : id ∉ s.flos) : s.entrySize id = 0 := by
  simp [entrySize, HashMap.not_mem_iff_lookup.mp h]

theorem entrySize_congr (h : s'.flos.lookup i = s.flos.lookup i) :
    s'.entrySize i = s.entrySize i := by
  rw [entrySize, h, entrySize]

theorem sum_eq_entrySize_add (s : RealmStorage) (id : FloID) :
    HashMap.sum s.flos FloStorage.size =
      s.entrySize id + HashMap.sum (s.flos.erase id) FloStorage.size := by
  cases h : s.flos.lookup id
  case some fs => rw [entrySize_of_lookup h, HashMap.sum_eq_of_lookup h]
  case none =>
    have hm := HashMap.not_mem_iff_lookup.mpr h
    rw [entrySize_eq_zero hm, HashMap.sum_erase_of_notMem hm, Nat.zero_add]

theorem frame_removeEntry (s : RealmStorage) (id : FloID) : Frame s (s.removeEntry id) := by
  unfold removeEntry
  split <;> exact ⟨rfl, rfl, rfl, rfl⟩

theorem lookup_removeEntry (s : RealmStorage) (id i : FloID) :
    (s.removeEntry id).flos.lookup i = if i = id then none else s.flos.lookup i := by
  unfold removeEntry
  split
  case h_1 => exact HashMap.lookup_erase_eq i id
  case h_2 h =>
    split
    case isTrue hi  => exact hi ▸ h
    case isFalse hi => rfl

theorem mem_removeEntry : i ∈ (s.removeEntry id).flos ↔ i ≠ id ∧ i ∈ s.flos := by
  simp only [HashMap.mem_iff_lookup, lookup_removeEntry]
  split <;> simp_all

theorem idsAt_removeEntry (s : RealmStorage) (id : FloID) (d : Nat) : (s.removeEntry id).idsAt d =
    if id ∈ s.flos ∧ d = KNode.getDepth s.root id then (s.idsAt d).filter (· ≠ id)
    else s.idsAt d := by
  unfold removeEntry
  split
  case h_1 df hl =>
    have hm : id ∈ s.flos := HashMap.mem_iff_lookup.mpr ⟨df, hl⟩
    simp only [idsAt, HashMap.lookup_modify, hm, true_and]
    split
    case isTrue hd =>
      subst hd
      cases s.distances.lookup (KNode.getDepth s.root id) <;> simp
    case isFalse   => rfl
  case h_2 hl => rw [if_neg fun h => HashMap.not_mem_iff_lookup.mpr hl h.left]

theorem frame_put [Sha256] (s : RealmStorage) (now : Int) (flo : Flo) : Frame s (s.put now flo) :=
  have h := frame_removeEntry s flo.floId
  ⟨h.dhtConfig, h.realmConfig, h.realmId, h.root⟩

theorem lookup_put [Sha256] (s : RealmStorage) (now : Int) (flo : Flo) (i : FloID) :
    (s.put now flo).flos.lookup i =
      if i = flo.floId then some (.ofFlo now flo) else s.flos.lookup i := by
  simp only [put, HashMap.lookup_insert_eq, lookup_removeEntry]
  split <;> rfl

theorem mem_put [Sha256] : i ∈ (s.put now flo).flos ↔ i = flo.floId ∨ i ∈ s.flos := by
  simp only [HashMap.mem_iff_lookup, lookup_put]
  split <;> simp_all

theorem entrySize_put_self [Sha256] :
    (s.put now flo).entrySize flo.floId = (FloStorage.ofFlo now flo).size := by
  simp [entrySize, lookup_put]

theorem entrySize_put_of_ne [Sha256] (h : i ≠ flo.floId) :
    (s.put now flo).entrySize i = s.entrySize i := by
  rw [entrySize, lookup_put, if_neg h, entrySize]

theorem frame_storeCuckooId (s : RealmStorage) (parent cuckoo : FloID) :
    Frame s (s.storeCuckooId parent cuckoo) := by
  unfold storeCuckooId
  split
  case h_1 => split <;> exact ⟨rfl, rfl, rfl, rfl⟩
  case h_2 => exact .refl s

theorem idsAt_storeCuckooId (s : RealmStorage) (parent cuckoo : FloID) (d : Nat) :
    (s.storeCuckooId parent cuckoo).idsAt d = s.idsAt d := by
  unfold storeCuckooId
  split
  case h_1 => split <;> rfl
  case h_2 => rfl

theorem lookup_storeCuckooId (s : RealmStorage) (parent cuckoo i : FloID) :
    (s.storeCuckooId parent cuckoo).flos.lookup i =
      if i = parent then (s.flos.lookup i).map (·.withCuckoo cuckoo) else s.flos.lookup i := by
  unfold storeCuckooId
  split
  case h_1 fs hl =>
    split
    case isTrue hc =>
      rw [HashMap.lookup_insert_eq]
      split
      case isTrue hi => rw [hi, hl, Option.map_some, FloStorage.withCuckoo, if_pos hc]
      case isFalse   => rfl
    case isFalse hc =>
      split
      case isTrue hi =>
        rw [hi, hl, Option.map_some, FloStorage.withCuckoo_of_mem (not_not.mp hc)]
      case isFalse   => rfl
  case h_2 hl =>
    split
    case isTrue hi => rw [hi, hl]; rfl
    case isFalse   => rfl

theorem mem_storeCuckooId {parent cuckoo : FloID} :
    i ∈ (s.storeCuckooId parent cuckoo).flos ↔ i ∈ s.flos := by
  simp only [HashMap.mem_iff_lookup, lookup_storeCuckooId]
  split <;> simp

variable [Sha256]

-- The recorded size is that of all entries, every entry is stored under the id of its flo, and the
-- index lists each stored id exactly once, at its depth.
structure Wf (s : RealmStorage) : Prop where
  size_eq : s.size = HashMap.sum s.flos FloStorage.size
  keyed   : ∀ {id fs}, s.flos.lookup id = some fs → fs.flo.floId = id
  indexed : ∀ {d id}, id ∈ s.idsAt d ↔ id ∈ s.flos ∧ d = KNode.getDepth s.root id
  nodup   : ∀ d, (s.idsAt d).Nodup

theorem Wf.idsAt_removeEntry (h : s.Wf) (id : FloID) (d : Nat) :
    (s.removeEntry id).idsAt d = (s.idsAt d).filter (· ≠ id) := by
  rw [RealmStorage.idsAt_removeEntry]
  split
  case isTrue     => rfl
  case isFalse hn =>
    rw [← h.indexed] at hn
    exact (List.filter_eq_self.mpr fun i hi => by simpa using fun he : i = id => hn (he ▸ hi)).symm

theorem Wf.removeEntry (h : s.Wf) (id : FloID) : (s.removeEntry id).Wf where
  size_eq := by
    have hs := h.size_eq
    unfold RealmStorage.removeEntry
    split
    case h_2 => exact hs
    case h_1 hl =>
      rw [HashMap.sum_eq_of_lookup hl] at hs
      dsimp only
      omega
  keyed := by
    intro i fs hl
    rw [lookup_removeEntry] at hl
    split at hl
    case isTrue  => contradiction
    case isFalse => exact h.keyed hl
  indexed := by
    intro d i
    rw [h.idsAt_removeEntry, List.mem_filter, h.indexed, mem_removeEntry,
      (frame_removeEntry s id).root]
    simp only [decide_eq_true_eq]
    tauto
  nodup := fun d => h.idsAt_removeEntry id d ▸ (h.nodup d).filter _

theorem Wf.size_removeEntry (h : s.Wf) (id : FloID) :
    (s.removeEntry id).size + s.entrySize id = s.size := by
  have hs := h.size_eq
  unfold RealmStorage.removeEntry
  split
  case h_1 hl =>
    rw [HashMap.sum_eq_of_lookup hl] at hs
    rw [entrySize_of_lookup hl]
    dsimp only
    omega
  case h_2 hl => rw [entrySize_eq_zero (HashMap.not_mem_iff_lookup.mpr hl), Nat.add_zero]

theorem Wf.idsAt_put (h : s.Wf) (now : Int) (flo : Flo) (d : Nat) : (s.put now flo).idsAt d =
    if d = KNode.getDepth s.root flo.floId then (s.idsAt d).filter (· ≠ flo.floId) ++ [flo.floId]
    else (s.idsAt d).filter (· ≠ flo.floId) := by
  have hr := (frame_removeEntry s flo.floId).root
  rw [← h.idsAt_removeEntry flo.floId d]
  simp only [RealmStorage.put, idsAt, hr, HashMap.lookup_insert_eq]
  split
  case isTrue hd => rw [Option.getD_some, hd, hr]
  case isFalse   => rfl

theorem Wf.size_put (h : s.Wf) (now : Int) (flo : Flo) :
    (s.put now flo).size + s.entrySize flo.floId = s.size + (FloStorage.ofFlo now flo).size := by
  have hs := h.size_removeEntry flo.floId
  simp only [RealmStorage.put]
  omega

theorem Wf.put (h : s.Wf) (now : Int) (flo : Flo) : (s.put now flo).Wf where
  size_eq := by
    have hr := h.removeEntry flo.floId
    have hn : flo.floId ∉ (s.removeEntry flo.floId).flos := fun hm => (mem_removeEntry.mp hm).left rfl
    simp only [RealmStorage.put, HashMap.sum_insert, HashMap.sum_erase_of_notMem hn, ← hr.size_eq]
    omega
  keyed := by
    intro i fs hl
    rw [lookup_put] at hl
    split at hl
    case isTrue hi => cases hl; exact hi.symm
    case isFalse   => exact h.keyed hl
  indexed := by
    intro d i
    rw [h.idsAt_put, mem_put, (frame_put s now flo).root]
    by_cases he : i = flo.floId
    case pos => split <;> simp_all
    case neg => split <;> simp [he, h.indexed]
  nodup := by
    intro d
    rw [h.idsAt_put]
    split
    case isTrue =>
      refine List.nodup_append.mpr ⟨(h.nodup d).filter _, List.nodup_singleton _, ?_⟩
      intro i hi j hj he
      rw [List.mem_singleton.mp hj] at he
      simp [he] at hi
    case isFalse => exact (h.nodup d).filter _

theorem Wf.storeCuckooId (h : s.Wf) (parent cuckoo : FloID) :
    (s.storeCuckooId parent cuckoo).Wf where
  size_eq := by
    have hs := h.size_eq
    unfold RealmStorage.storeCuckooId
    split
    case h_2 => exact hs
    case h_1 hl =>
      rw [HashMap.sum_eq_of_lookup hl] at hs
      split
      case isFalse => rw [HashMap.sum_eq_of_lookup hl]; exact hs
      case isTrue =>
        simp only [HashMap.sum_insert]
        omega
  keyed := by
    intro i fs hl
    rw [lookup_storeCuckooId] at hl
    split at hl
    case isFalse => exact h.keyed hl
    case isTrue =>
      have ⟨_, hl, hw⟩ := Option.map_eq_some_iff.mp hl
      rw [← hw, FloStorage.withCuckoo_flo, h.keyed hl]
  indexed := by
    intro d i
    rw [idsAt_storeCuckooId, mem_storeCuckooId, (frame_storeCuckooId s parent cuckoo).root]
    exact h.indexed
  nodup := fun d => idsAt_storeCuckooId s parent cuckoo d ▸ h.nodup d

theorem Wf.size_storeCuckooId (h : s.Wf) (parent cuckoo : FloID) :
    (s.storeCuckooId parent cuckoo).size + s.entrySize parent =
      s.size + (s.storeCuckooId parent cuckoo).entrySize parent := by
  have hs := h.size_eq
  have hs' := (h.storeCuckooId parent cuckoo).size_eq
  have he : HashMap.sum ((s.storeCuckooId parent cuckoo).flos.erase parent) FloStorage.size =
      HashMap.sum (s.flos.erase parent) FloStorage.size := by
    unfold RealmStorage.storeCuckooId
    split
    case h_2 => rfl
    case h_1 => split <;> simp [HashMap.erase_insert]
  rw [sum_eq_entrySize_add _ parent] at hs hs'
  omega

theorem Wf.storeCuckooIds (h : s.Wf) (parent : FloID) (cuckoos : List FloID) :
    (s.storeCuckooIds parent cuckoos).Wf := by
  unfold RealmStorage.storeCuckooIds
  induction cuckoos generalizing s
  case nil        => exact h
  case cons c _ hi => exact hi <| h.storeCuckooId parent c

theorem Wf.adoptCuckoo (h : s.Wf) (flo : Flo) : (s.adoptCuckoo flo).Wf := by
  unfold RealmStorage.adoptCuckoo
  split
  case h_1 => exact h.storeCuckooId ..
  case h_2 => exact h

theorem Wf.insertFlo (h : s.Wf) (estimated stored : Int) (flo : Flo) :
    (s.insertFlo estimated stored flo).1.Wf := by
  unfold RealmStorage.insertFlo
  split
  case h_1 => split <;> simp only [h, h.put]
  case h_2 => dsimp only; split_ifs <;> simp only [h, h.put]

theorem Wf.removeFurthest (h : s.Wf) : s.removeFurthest.Wf := by
  unfold RealmStorage.removeFurthest
  dsimp only
  split
  case h_1 => split <;> simp only [h, h.removeEntry]
  case h_2 => exact h

theorem wf_new (dhtConfig : DHTConfig) (root : NodeID) (now : Int) (realm : FloRealm) :
    (new dhtConfig root now realm).Wf := by
  refine Wf.put ⟨rfl, ?_, ?_, ?_⟩ now realm.flo
  all_goals simp [idsAt, AList.lookup_empty]

end RealmStorage
