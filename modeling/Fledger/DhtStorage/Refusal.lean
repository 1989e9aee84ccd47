import Fledger.DhtStorage.Report
import Fledger.Flo.Concrete

namespace RealmStorage

variable [Sha256] {s s' s₁ : RealmStorage} {id i : FloID} {flo : Flo} {w n : Nat}
  {q : List (FloID × Nat)} {estimated stored : Int} {isNew : Bool}

-- A flo which is not kept costs no other flo, and a flo which is kept only costs those which are
-- further away than what is left.
structure Harmless (s s' : RealmStorage) (flo : Flo) : Prop where
  refused : flo.floId ∉ s'.flos → ∀ id ∈ s.flos, id ∈ s'.flos
  kept    : flo.floId ∈ s'.flos → ∀ id ∈ s.flos, id ∉ s'.flos → id ≠ s.realmId ∧
    ∀ i ∈ s'.flos, i ≠ s.realmId → KNode.getDepth s.root id ≤ KNode.getDepth s.root i

-- Whether the flo can be kept by evicting what is further away, or is the first one to go. If it is
-- not taken in, then there has to be room for its id in the entry of its parent.
def Affordable (s : RealmStorage) (estimated stored : Int) (flo : Flo) : Prop :=
  let s' := s.adoptCuckoo flo
  if s'.accepts estimated flo then
    s'.size + (FloStorage.ofFlo stored flo).size ≤
      s.realmConfig.maxSpace + Queue.weight (s'.inFront flo.floId) ∨
    s'.inFront flo.floId = [] ∧ s'.size ≤ s.realmConfig.maxSpace
  else s'.size ≤ s.realmConfig.maxSpace

section Depth

theorem Wf.sorted_items (h : s.Wf) :
    s.items.Pairwise fun a b => KNode.getDepth s.root a.1 ≤ KNode.getDepth s.root b.1 := by
  have hd : ∀ {d a}, a ∈ s.itemsAt d → KNode.getDepth s.root a.1 = d := by
    intro d a ha
    exact (h.indexed.mp (mem_itemsAt.mp ha).left).right.symm
  refine List.pairwise_flatMap.mpr ⟨fun d _ => ?_, ?_⟩
  case refine_1 =>
    refine List.pairwise_of_forall_mem_list fun a ha b hb => ?_
    rw [hd ha, hd hb]
  case refine_2 =>
    refine List.pairwise_lt_range.imp fun hlt a ha b hb => ?_
    rw [hd ha, hd hb]
    exact Nat.le_of_lt hlt

theorem Trimmed.ne_realmId (h : Trimmed s s') (hm : id ∈ s.flos) (hn : id ∉ s'.flos) :
    id ≠ s.realmId := by
  intro he
  rw [he, HashMap.not_mem_iff_lookup, h.lookup_realmId] at hn
  exact HashMap.not_mem_iff_lookup.mpr hn (he ▸ hm)

-- What is evicted is not closer than what stays.
theorem Trims.depth_le (ht : Trims s s') (h : s.Wf) (hm : id ∈ s.flos) (hn : id ∉ s'.flos)
    (hi : i ∈ s'.flos) (hr : i ≠ s.realmId) :
    KNode.getDepth s.root id ≤ KNode.getDepth s.root i := by
  have htr := ht.trimmed h
  obtain ⟨n, hd, _⟩ := Queue.Trims.exists_take ht h
  change s'.items = s.items.drop n at hd
  have hne := htr.ne_realmId hm hn
  have hleft : (id, s.entrySize id) ∈ s.items.take n := by
    have hmem := h.mem_items.mpr ⟨hm, hne, rfl⟩
    rw [← List.take_append_drop n s.items, List.mem_append] at hmem
    refine hmem.resolve_right fun hdrop => hn ?_
    exact (htr.wf.mem_items.mp <| hd ▸ hdrop).left
  have hright : (i, s'.entrySize i) ∈ s.items.drop n :=
    hd ▸ htr.wf.mem_items.mpr ⟨hi, htr.frame.realmId ▸ hr, rfl⟩
  have hs := h.sorted_items
  rw [← List.take_append_drop n s.items, List.pairwise_append] at hs
  exact hs.right.right _ hleft _ hright

end Depth

section Refuse

-- Nothing is evicted exactly if there is room.
theorem Trims.keeps_iff (ht : Trims s s') (h : s.Wf) :
    (∀ id ∈ s.flos, id ∈ s'.flos) ↔ s.size ≤ s.realmConfig.maxSpace := by
  constructor
  case mpr => exact fun hl id hm => (Queue.Trims.eq_of_le ht hl : s' = s) ▸ hm
  case mp =>
    intro hk
    refine Nat.le_of_not_lt fun hl => ht.not_sameFlos h hl fun id => ?_
    by_cases hm : id ∈ s.flos
    case pos => rw [(ht.trimmed h).mem (hk id hm)]
    case neg =>
      have hn := HashMap.not_mem_iff_lookup.mp hm
      rcases (ht.trimmed h).lookup id with hl | hl
      · rw [hl]
      · rw [hl.left, hn]

-- What is put and removed again leaves the size and the ids as they were.
theorem size_removeEntry_put (h : s.Wf) (hm : flo.floId ∉ s.flos) :
    ((s.put stored flo).removeEntry flo.floId).size = s.size := by
  have h₁ := (h.put stored flo).size_removeEntry flo.floId
  have h₂ := h.size_put stored flo
  rw [entrySize_put_self] at h₁
  rw [entrySize_eq_zero hm] at h₂
  omega

theorem mem_removeEntry_put (hm : flo.floId ∉ s.flos) (id : FloID) :
    id ∈ ((s.put stored flo).removeEntry flo.floId).flos ↔ id ∈ s.flos := by
  rw [mem_removeEntry, mem_put]
  constructor
  case mp  => exact fun hi => hi.right.resolve_left hi.left
  case mpr => exact fun hi => ⟨fun he => hm (he ▸ hi), .inr hi⟩

theorem Trims.ne_realmId_of_put (ht : Trims (s.put stored flo) s') (h : s.Wf)
    (hn : flo.floId ∉ s'.flos) : flo.floId ≠ s.realmId :=
  (frame_put s stored flo).realmId ▸
    (ht.trimmed <| h.put stored flo).ne_realmId (mem_put.mpr <| .inl rfl) hn

-- If nothing of before is evicted, nothing is in front of the new flo.
theorem Trims.inFront_eq_nil (ht : Trims (s.put stored flo) s') (h : s.Wf)
    (hn : flo.floId ∉ s'.flos) (hk : ∀ id ∈ s.flos, id ∈ s'.flos) : s.inFront flo.floId = [] := by
  have hf := frame_put s stored flo
  refine List.eq_nil_iff_forall_not_mem.mpr fun ⟨id, w⟩ hi => ?_
  rw [inFront, if_neg <| ht.ne_realmId_of_put h hn, h.mem_itemsBelow] at hi
  have hle := ht.depth_le (h.put stored flo) (mem_put.mpr <| .inl rfl) hn (hk id hi.left)
    (hf.realmId ▸ hi.right.left)
  rw [hf.root] at hle
  omega

-- With nothing in front of it, the loop starts with the flo.
theorem Trims.of_removeEntry_put (ht : Trims (s.put stored flo) s') (h : s.Wf)
    (hn : flo.floId ∉ s'.flos) (hnil : s.inFront flo.floId = []) :
    Trims ((s.put stored flo).removeEntry flo.floId) s' := by
  have hl := (ht.mem_put_iff h).not.mp hn
  obtain ⟨w, q, hq⟩ := h.items_put_of_ne stored <| ht.ne_realmId_of_put h hn
  rw [hnil, List.nil_append] at hq
  rw [← removeFurthest_of_cons hq]
  refine (Trims.step_iff ?_).mp ht
  rw [hnil, Queue.weight_nil, ← h.size_put_eq] at hl
  exact (frame_put s stored flo).realmConfig ▸ Nat.lt_of_not_le hl

-- A flo which was just put and which is evicted again takes with it what is in front of it.
theorem Trims.keeps_put_iff (ht : Trims (s.put stored flo) s') (h : s.Wf)
    (hm : flo.floId ∉ s.flos) (hn : flo.floId ∉ s'.flos) :
    (∀ id ∈ s.flos, id ∈ s'.flos) ↔
      s.inFront flo.floId = [] ∧ s.size ≤ s.realmConfig.maxSpace := by
  have hconfig := ((frame_put s stored flo).trans (frame_removeEntry _ flo.floId)).realmConfig
  have hkeeps : s.inFront flo.floId = [] →
      ((∀ id ∈ s.flos, id ∈ s'.flos) ↔ s.size ≤ s.realmConfig.maxSpace) := by
    intro hnil
    have hk := (ht.of_removeEntry_put h hn hnil).keeps_iff <|
      (h.put stored flo).removeEntry flo.floId
    simp only [mem_removeEntry_put hm] at hk
    rw [hk, size_removeEntry_put h hm, hconfig]
  constructor
  case mp  => exact fun hk => have hnil := ht.inFront_eq_nil h hn hk; ⟨hnil, (hkeeps hnil).mp hk⟩
  case mpr => exact fun hk => (hkeeps hk.left).mpr hk.right

theorem harmless_iff_of_stale (h : s.Wf) (hm : flo.floId ∉ s.flos) (ho : ¬s.oversized flo)
    (hacc : (s.adoptCuckoo flo).accepts estimated flo = false)
    (hu : s.Upserts estimated stored flo s' isNew) :
    Harmless s s' flo ↔ (s.adoptCuckoo flo).size ≤ s.realmConfig.maxSpace := by
  have ha := h.adoptCuckoo flo
  have ht := (upserts_iff ho).mp hu |>.right
  rw [taken_of_stale hacc] at ht
  have hn : flo.floId ∉ s'.flos := fun hi => hm (mem_adoptCuckoo.mp ((ht.mem_iff ha).mp hi).left)
  have hk := ht.keeps_iff ha
  simp only [mem_adoptCuckoo, (frame_adoptCuckoo s flo).realmConfig] at hk
  rw [← hk]
  exact ⟨fun hs => hs.refused hn, fun hk => ⟨fun _ => hk, fun hi => absurd hi hn⟩⟩

theorem harmless_iff_of_accepted (h : s.Wf) (hm : flo.floId ∉ s.flos) (ho : ¬s.oversized flo)
    (hacc : (s.adoptCuckoo flo).accepts estimated flo = true)
    (hu : s.Upserts estimated stored flo s' isNew) :
    Harmless s s' flo ↔
      (s.adoptCuckoo flo).size + (FloStorage.ofFlo stored flo).size ≤
        s.realmConfig.maxSpace + Queue.weight ((s.adoptCuckoo flo).inFront flo.floId) ∨
      (s.adoptCuckoo flo).inFront flo.floId = [] ∧
        (s.adoptCuckoo flo).size ≤ s.realmConfig.maxSpace := by
  have ha := h.adoptCuckoo flo
  have hp := ha.put stored flo
  have hf := frame_adoptCuckoo s flo
  have hfp := hf.trans <| frame_put (s.adoptCuckoo flo) stored flo
  have hma : flo.floId ∉ (s.adoptCuckoo flo).flos := mem_adoptCuckoo.not.mpr hm
  have ht := (upserts_iff ho).mp hu |>.right
  rw [taken_of_accepts hacc] at ht
  have hmem := ht.mem_put_iff ha
  rw [loadWith, entrySize_eq_zero hma, Nat.sub_zero, hf.realmConfig] at hmem
  rw [← hmem]
  by_cases hn : flo.floId ∈ s'.flos
  case pos =>
    simp only [hn, true_or, iff_true]
    refine ⟨fun hi => absurd hn hi, fun _ id hi hni => ?_⟩
    have hi : id ∈ ((s.adoptCuckoo flo).put stored flo).flos :=
      mem_put.mpr <| .inr <| mem_adoptCuckoo.mpr hi
    rw [← hfp.realmId, ← hfp.root]
    exact ⟨(ht.trimmed hp).ne_realmId hi hni, fun i hj hr => ht.depth_le hp hi hni hj hr⟩
  case neg =>
    have hk := ht.keeps_put_iff ha hma hn
    simp only [mem_adoptCuckoo, hf.realmConfig] at hk
    simp only [hn, false_or, ← hk]
    exact ⟨fun hs => hs.refused hn, fun hk => ⟨fun _ => hk, fun hi => absurd hi hn⟩⟩

-- What `upsert_flo` does to the other flos.
theorem Reachable.harmless_iff (h : Reachable s) (hm : flo.floId ∉ s.flos)
    (hu : s.Upserts estimated stored flo s' isNew) :
    Harmless s s' flo ↔ s.oversized flo ∨ s.Affordable estimated stored flo := by
  by_cases ho : s.oversized flo
  case pos =>
    obtain ⟨rfl, _⟩ := (upserts_of_oversized ho).mp hu
    simp only [ho, true_or, iff_true]
    exact ⟨fun _ _ hi => hi, fun hk => absurd hk hm⟩
  case neg =>
    simp only [ho, false_or, Affordable]
    cases hacc : (s.adoptCuckoo flo).accepts estimated flo
    case false => simpa using harmless_iff_of_stale h.wf hm ho hacc hu
    case true  => simpa using harmless_iff_of_accepted h.wf hm ho hacc hu

end Refuse

end RealmStorage

namespace RealmStorage

attribute [local instance] Sha256.rolling

-- Most of the space is taken by the flo of the realm.
def tightRealm : FloRealm :=
  Flo.sampleRealm 1500 500

def largeFlo : Flo :=
  .sample tightRealm.flo.realm 1 136

def smallFlo : Flo :=
  .sample tightRealm.flo.realm 2 5

-- A node which is next to the large flo and holds the small one.
def tight : RealmStorage :=
  .taken (.new {} largeFlo.floId 0 tightRealm) 0 0 smallFlo

-- The storage after the large flo has been tried.
def tried : RealmStorage :=
  (tight.taken 0 0 largeFlo).removeFurthest.removeFurthest

theorem reachable_tight : Reachable tight :=
  Reachable.taken (.new ..) (by decide +kernel) (by decide +kernel)

-- The large flo is accepted, and the storage is too large until both flos are gone.
theorem tight_taken :
    (¬tight.oversized largeFlo ∧ (tight.adoptCuckoo largeFlo).accepts 0 largeFlo = true) ∧
    ((tight.taken 0 0 largeFlo).realmConfig.maxSpace < (tight.taken 0 0 largeFlo).size ∧
      (tight.taken 0 0 largeFlo).removeFurthest.realmConfig.maxSpace <
        (tight.taken 0 0 largeFlo).removeFurthest.size ∧
      tried.size ≤ tried.realmConfig.maxSpace) ∧
    (largeFlo.floId ∉ tight.flos ∧ smallFlo.floId ∈ tight.flos ∧
      largeFlo.floId ∉ tried.flos ∧ smallFlo.floId ∉ tried.flos) := by
  decide +kernel

theorem tight_upserts : tight.Upserts 0 0 largeFlo tried true := by
  obtain ⟨⟨ho, hacc⟩, ⟨h₁, h₂, h₃⟩, _⟩ := tight_taken
  have hstop : Trims tried tried := .stop h₃
  have ht : Trims (tight.taken 0 0 largeFlo) tried := by
    rw [Trims.step_iff h₁, Trims.step_iff h₂]
    exact hstop
  exact (upserts_iff ho).mpr ⟨by rw [hacc, Bool.true_or], ht⟩

theorem harmless_iff_tight : Harmless tight tried largeFlo ↔
    tight.oversized largeFlo ∨ tight.Affordable 0 0 largeFlo :=
  reachable_tight.harmless_iff tight_taken.right.right.left tight_upserts

-- The size of the flo of the realm is counted as what can be freed. So both flos are gone.
theorem tight_not_harmless : Reachable tight ∧ largeFlo.floId ∉ tight.flos ∧
    tight.Upserts 0 0 largeFlo tried true ∧ ¬Harmless tight tried largeFlo := by
  obtain ⟨hm, hs, hl, hn⟩ := tight_taken.right.right
  exact ⟨reachable_tight, hm, tight_upserts, fun h => hn <| h.refused hl _ hs⟩

end RealmStorage
