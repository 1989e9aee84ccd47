import Fledger.DhtStorage.Upsert
import Fledger.Flo.Concrete

namespace RealmStorage

variable [Sha256] {s : RealmStorage} {estimated stored : Int} {flo : Flo}

-- The size of the flo of the realm, once the given flo has been taken in: this can be the same flo,
-- or one of its cuckoos.
def heldSize (s : RealmStorage) (estimated stored : Int) (flo : Flo) : Nat :=
  let s' := s.adoptCuckoo flo
  if flo.floId = s.realmId ∧ s'.accepts estimated flo then (FloStorage.ofFlo stored flo).size
  else s'.entrySize s.realmId

theorem entrySize_taken (s : RealmStorage) (estimated stored : Int) (flo : Flo) :
    (s.taken estimated stored flo).entrySize s.realmId = s.heldSize estimated stored flo := by
  unfold taken heldSize
  dsimp only
  cases (s.adoptCuckoo flo).accepts estimated flo
  case false => simp
  case true =>
    by_cases hr : flo.floId = s.realmId
    case pos => simp only [← hr, entrySize_put_self, true_and, if_true]
    case neg => simp only [hr, false_and, if_false, if_true, entrySize_put_of_ne (Ne.symm hr)]

-- The loop ends if nothing has to be evicted which can not be evicted.
theorem Wf.exists_upserts_iff (h : s.Wf) (ho : ¬s.oversized flo) :
    (∃ s' isNew, s.Upserts estimated stored flo s' isNew) ↔
      s.heldSize estimated stored flo ≤ s.realmConfig.maxSpace := by
  have hf := frame_taken s estimated stored flo
  have hl := (h.taken estimated stored flo).trims_iff
  rw [hf.realmId, hf.realmConfig, entrySize_taken] at hl
  rw [← hl]
  simp only [upserts_iff ho]
  constructor
  case mp  => exact fun ⟨s', _, _, hs⟩ => ⟨s', hs⟩
  case mpr => exact fun ⟨s', hs⟩ => ⟨s', _, rfl, hs⟩

-- The call returns and keeps the bound exactly if nothing has to be evicted which can not be
-- evicted. For a flo which is too large nothing is evicted at all.
theorem upsert_bounded_iff (h : Reachable s) :
    ((∃ s' isNew, s.Upserts estimated stored flo s' isNew) ∧
      ∀ s' isNew, s.Upserts estimated stored flo s' isNew → s'.size ≤ s'.realmConfig.maxSpace) ↔
    if s.oversized flo then s.size ≤ s.realmConfig.maxSpace
    else s.heldSize estimated stored flo ≤ s.realmConfig.maxSpace := by
  split
  case isTrue ho =>
    simp only [upserts_of_oversized ho]
    constructor
    case mp  => exact fun ⟨_, hb⟩ => hb s false ⟨rfl, rfl⟩
    case mpr => exact fun hb => ⟨⟨s, false, rfl, rfl⟩, fun _ _ hs => hs.left ▸ hb⟩
  case isFalse ho =>
    rw [← h.wf.exists_upserts_iff ho]
    refine ⟨fun hr => hr.1, fun hr => ⟨hr, fun s' isNew hu => ?_⟩⟩
    have ht := h.wf.taken estimated stored flo
    have hs := ((upserts_iff ho).mp hu).2
    rw [(hs.trimmed ht).frame.realmConfig]
    exact hs.size_le ht

end RealmStorage

namespace RealmStorage

attribute [local instance] Sha256.rolling

-- A realm whose own flo leaves room for one more.
def roomy : RealmStorage :=
  .new {} .zero 0 (Flo.sampleRealm 1000 10)

theorem upsert_bounded_iff_roomy :
    ((∃ s' isNew, roomy.Upserts 0 0 (.sample roomy.realmId 1 5) s' isNew) ∧
      ∀ s' isNew, roomy.Upserts 0 0 (.sample roomy.realmId 1 5) s' isNew →
        s'.size ≤ s'.realmConfig.maxSpace) ↔
    if roomy.oversized (.sample roomy.realmId 1 5) then roomy.size ≤ roomy.realmConfig.maxSpace
    else roomy.heldSize 0 0 (.sample roomy.realmId 1 5) ≤ roomy.realmConfig.maxSpace :=
  upsert_bounded_iff (.new ..)

-- A realm whose own flo is larger than the space of the realm.
def crowded : RealmStorage :=
  .new {} .zero 0 (Flo.sampleRealm 900 400)

-- The next flo which is stored in it sends the loop on forever.
theorem crowded_diverges : Reachable crowded ∧
    ¬∃ s' isNew, crowded.Upserts 0 0 (.sample crowded.realmId 1 5) s' isNew := by
  have hr : Reachable crowded := .new ..
  refine ⟨hr, fun ⟨s', isNew, hu⟩ => ?_⟩
  have ho : ¬crowded.oversized (.sample crowded.realmId 1 5) := by decide +kernel
  have ht := (upserts_iff ho).mp hu |>.right
  have hl := (hr.wf.taken ..).trims_iff.mp ⟨s', ht⟩
  revert hl
  decide +kernel

end RealmStorage
