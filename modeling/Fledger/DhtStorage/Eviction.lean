import Fledger.DhtStorage.Accounting
import Fledger.Lib.Trim
import Mathlib.Data.List.Nodup

namespace RealmStorage

variable {s s' : RealmStorage} {id i : FloID} {w n d : Nat} {q : List (FloID × Nat)}

def evictableAt (s : RealmStorage) (d : Nat) : List FloID :=
  (s.idsAt d).filter (· ≠ s.realmId)

def itemsAt (s : RealmStorage) (d : Nat) : List (FloID × Nat) :=
  (s.evictableAt d).reverse.map fun id => (id, s.entrySize id)

-- What can be evicted below a depth, in the order in which it is evicted: the furthest entries come
-- first, and among entries of the same depth the latest one.
def itemsBelow (s : RealmStorage) (n : Nat) : List (FloID × Nat) :=
  (List.range n).flatMap s.itemsAt

def items (s : RealmStorage) : List (FloID × Nat) :=
  s.itemsBelow 256

theorem mem_itemsAt : (id, w) ∈ s.itemsAt d ↔ id ∈ s.idsAt d ∧ id ≠ s.realmId ∧ w = s.entrySize id := by
  simp only [itemsAt, evictableAt, List.mem_map, List.mem_reverse, List.mem_filter,
    decide_eq_true_eq, Prod.mk.injEq]
  constructor
  case mp =>
    intro ⟨_, ⟨hm, hr⟩, hi, hw⟩
    exact hi ▸ ⟨hm, hr, hw.symm⟩
  case mpr =>
    intro ⟨hm, hr, hw⟩
    exact ⟨id, ⟨hm, hr⟩, rfl, hw.symm⟩

theorem itemsAt_eq_cons (h : s.itemsAt d = (id, w) :: q) : (s.evictableAt d).getLast? = some id := by
  have h := congrArg (·.head?.map Prod.fst) h
  simpa [itemsAt, Function.comp_def] using h

theorem itemsAt_eq_nil : s.itemsAt d = [] ↔ s.evictableAt d = [] := by
  simp [itemsAt]

-- The first item comes from the first depth at which there are items.
theorem exists_of_flatMap_range_eq_cons {α : Type*} {f : Nat → List α} {a : α} {q : List α}
    (h : (List.range n).flatMap f = a :: q) :
    ∃ d, (∃ q, f d = a :: q) ∧ ∀ d' < d, f d' = [] := by
  induction n generalizing q
  case zero => simp at h
  case succ n hi =>
    rw [List.range_succ, List.flatMap_append, List.flatMap_singleton] at h
    cases hn : (List.range n).flatMap f
    case cons =>
      rw [hn, List.cons_append, List.cons.injEq] at h
      exact hi (h.left ▸ hn)
    case nil =>
      rw [hn, List.nil_append] at h
      exact ⟨n, ⟨q, h⟩, fun d hd => List.flatMap_eq_nil_iff.mp hn d (List.mem_range.mpr hd)⟩

-- The depths among which `remove_furthest` looks for the smallest one.
def furthestDepths (s : RealmStorage) : List Nat :=
  HashMap.pairs s.distances |>.filterMap fun (dist, flos) =>
    if (flos.filter (· ≠ s.realmId)).length > 0 then some dist else none

theorem mem_furthestDepths : d ∈ s.furthestDepths ↔ s.evictableAt d ≠ [] := by
  simp only [furthestDepths, List.mem_filterMap, Option.ite_none_right_eq_some, Prod.exists,
    HashMap.mem_pairs, Option.some.injEq, evictableAt, idsAt, List.length_pos_iff]
  constructor
  case mp =>
    rintro ⟨_, _, hl, hn, hd⟩
    subst hd
    rwa [hl]
  case mpr =>
    intro hn
    cases hl : s.distances.lookup d
    case none      => simp [hl] at hn
    case some flos => exact ⟨d, flos, hl, by simpa [hl] using hn, rfl⟩

variable [Sha256]

theorem Wf.mem_itemsBelow (h : s.Wf) : (id, w) ∈ s.itemsBelow n ↔
    id ∈ s.flos ∧ id ≠ s.realmId ∧ w = s.entrySize id ∧ KNode.getDepth s.root id < n := by
  simp only [itemsBelow, List.mem_flatMap, List.mem_range, mem_itemsAt, h.indexed]
  constructor
  case mp =>
    intro ⟨_, hd, ⟨hm, he⟩, hr, hw⟩
    exact ⟨hm, hr, hw, he ▸ hd⟩
  case mpr =>
    intro ⟨hm, hr, hw, hd⟩
    exact ⟨_, hd, ⟨hm, rfl⟩, hr, hw⟩

theorem Wf.mem_items (h : s.Wf) :
    (id, w) ∈ s.items ↔ id ∈ s.flos ∧ id ≠ s.realmId ∧ w = s.entrySize id := by
  rw [items, h.mem_itemsBelow]
  simp [KNode.getDepth_lt]

theorem Wf.nodup_itemsBelow (h : s.Wf) (n : Nat) : ((s.itemsBelow n).map Prod.fst).Nodup := by
  simp only [itemsBelow, List.map_flatMap, List.nodup_flatMap]
  constructor
  case left =>
    intro d _
    simpa [itemsAt, Function.comp_def, evictableAt] using (h.nodup d).filter _
  case right =>
    refine List.nodup_range.imp fun {d d'} hne => ?_
    intro id hd hd'
    simp only [itemsAt, List.map_map, List.mem_map, List.mem_reverse, Function.comp_apply,
      exists_eq_right, evictableAt, List.mem_filter, h.indexed] at hd hd'
    exact hne <| hd.left.right.trans hd'.left.right.symm

theorem Wf.itemsBelow_removeEntry (h : s.Wf) (id : FloID) (n : Nat) :
    (s.removeEntry id).itemsBelow n = (s.itemsBelow n).filter (·.1 ≠ id) := by
  rw [itemsBelow, itemsBelow, List.filter_flatMap]
  refine List.flatMap_congr fun d _ => ?_
  simp only [itemsAt, evictableAt, h.idsAt_removeEntry, (frame_removeEntry s id).realmId,
    List.filter_map, List.filter_reverse, List.filter_filter, Function.comp_def]
  rw [List.filter_congr fun i _ => Bool.and_comm ..]
  refine List.map_congr_left fun i hi => ?_
  have hne : i ≠ id := by simp at hi; exact hi.right.left
  have hl : (s.removeEntry id).flos.lookup i = s.flos.lookup i := by
    rw [lookup_removeEntry, if_neg hne]
  rw [entrySize_congr hl]

-- `remove_furthest` takes the first item.
omit [Sha256] in
theorem removeFurthest_of_cons (hi : s.items = (id, w) :: q) :
    s.removeFurthest = s.removeEntry id := by
  obtain ⟨d, ⟨_, hd⟩, hlt⟩ := exists_of_flatMap_range_eq_cons hi
  have hlast := itemsAt_eq_cons hd
  have hmin : s.furthestDepths.min? = some d := by
    refine List.min?_eq_some_iff.mpr ⟨mem_furthestDepths.mpr ?_, fun d' hd' => ?_⟩
    case refine_1 => exact fun hn => by simp [hn] at hlast
    case refine_2 =>
      exact Nat.le_of_not_lt fun hl => mem_furthestDepths.mp hd' <| itemsAt_eq_nil.mp (hlt d' hl)
  rw [furthestDepths] at hmin
  simp only [RealmStorage.removeFurthest, hmin]
  cases hl : s.distances.lookup d
  case none   => simp [evictableAt, idsAt, hl] at hlast
  case some v =>
    simp only [evictableAt, idsAt, hl, Option.getD_some] at hlast
    rw [Option.bind_some, hlast]

theorem Wf.removeFurthest_of_nil (h : s.Wf) (hi : s.items = []) : s.removeFurthest = s := by
  have hmin : s.furthestDepths.min? = none := by
    rw [List.min?_eq_none_iff, List.eq_nil_iff_forall_not_mem]
    intro d hd
    obtain ⟨i, hm⟩ := List.exists_mem_of_ne_nil _ <| mem_furthestDepths.mp hd
    simp only [evictableAt, List.mem_filter, h.indexed, decide_eq_true_eq] at hm
    have hm := h.mem_items.mpr ⟨hm.left.left, hm.right, rfl⟩
    simp [hi] at hm
  rw [furthestDepths] at hmin
  simp only [RealmStorage.removeFurthest, hmin]

theorem Wf.items_removeFurthest (h : s.Wf) (hi : s.items = (id, w) :: q) :
    s.removeFurthest.items = q ∧ s.removeFurthest.size + w = s.size := by
  rw [removeFurthest_of_cons hi]
  have hs := h.size_removeEntry id
  have hw := (h.mem_items.mp <| hi ▸ List.mem_cons_self ..).right.right
  refine ⟨?_, hw ▸ hs⟩
  have hn := h.nodup_itemsBelow 256
  rw [← items, hi, List.map_cons, List.nodup_cons] at hn
  rw [items, h.itemsBelow_removeEntry, ← items, hi, List.filter_cons_of_neg (by simp)]
  refine List.filter_eq_self.mpr fun i hm => ?_
  simpa using fun he : i.1 = id => hn.left <| List.mem_map.mpr ⟨i, hm, he⟩

omit [Sha256] in
theorem frame_removeFurthest (s : RealmStorage) : Frame s s.removeFurthest := by
  unfold removeFurthest
  dsimp only
  split
  case h_1 => split <;> simp only [frame_removeEntry, Frame.refl]
  case h_2 => exact .refl s

-- The storage as a queue of the entries which can be evicted.
def evictionQueue : Queue RealmStorage FloID where
  items    := items
  load     := size
  budget s := s.realmConfig.maxSpace
  pop      := removeFurthest
  Inv      := Wf
  pop_nil  := fun h hi => h.removeFurthest_of_nil hi
  pop_cons := fun h hi => h.items_removeFurthest hi
  pop_inv  := fun h => ⟨h.removeFurthest, congrArg RealmConfig.maxSpace (frame_removeFurthest _).realmConfig⟩

abbrev Trims (s s' : RealmStorage) : Prop :=
  evictionQueue.Trims s s'

theorem Trims.stop (hl : s.size ≤ s.realmConfig.maxSpace) : Trims s s :=
  Loop.Exits.stop <| Queue.guard_eq_false.mpr hl

theorem Trims.step_iff (hl : s.realmConfig.maxSpace < s.size) :
    Trims s s' ↔ Trims s.removeFurthest s' :=
  Loop.Exits.step_iff <| decide_eq_true hl

theorem Wf.lookup_removeFurthest (h : s.Wf) (id : FloID) :
    s.removeFurthest.flos.lookup id = s.flos.lookup id ∨
    s.removeFurthest.flos.lookup id = none ∧ id ≠ s.realmId := by
  cases hi : s.items
  case nil => exact .inl <| by rw [h.removeFurthest_of_nil hi]
  case cons i q =>
    rw [removeFurthest_of_cons hi, lookup_removeEntry]
    split
    case isFalse   => exact .inl rfl
    case isTrue he =>
      exact .inr ⟨rfl, he ▸ (h.mem_items.mp <| hi ▸ List.mem_cons_self ..).right.left⟩

-- What the loop leaves behind.
structure Trimmed (s s' : RealmStorage) : Prop where
  wf     : s'.Wf
  frame  : Frame s s'
  lookup : ∀ id, s'.flos.lookup id = s.flos.lookup id ∨
    s'.flos.lookup id = none ∧ id ≠ s.realmId

theorem Trimmed.removeFurthest (h : Trimmed s s') : Trimmed s s'.removeFurthest where
  wf     := h.wf.removeFurthest
  frame  := h.frame.trans (frame_removeFurthest s')
  lookup := by
    intro id
    rcases h.wf.lookup_removeFurthest id with hl | ⟨hl, hr⟩
    · exact hl ▸ h.lookup id
    · exact .inr ⟨hl, h.frame.realmId ▸ hr⟩

theorem Trims.trimmed (ht : Trims s s') (h : s.Wf) : Trimmed s s' :=
  ht.invariant (P := Trimmed s) ⟨h, .refl s, fun _ => .inl rfl⟩ (fun _ _ hs => hs.removeFurthest)
    |>.left

theorem Trimmed.mem (h : Trimmed s s') (hm : id ∈ s'.flos) :
    s'.flos.lookup id = s.flos.lookup id := by
  refine (h.lookup id).resolve_right fun hn => ?_
  exact HashMap.not_mem_iff_lookup.mpr hn.left hm

theorem Trimmed.lookup_realmId (h : Trimmed s s') :
    s'.flos.lookup s.realmId = s.flos.lookup s.realmId :=
  (h.lookup s.realmId).resolve_right fun hn => hn.right rfl

theorem Trims.size_le (ht : Trims s s') (h : s.Wf) : s'.size ≤ s.realmConfig.maxSpace :=
  (ht.trimmed h).frame.realmConfig ▸ Queue.Trims.load_le ht

-- Only the flo of the realm can not be evicted.
theorem Wf.size_eq_entrySize (h : s.Wf) (hi : s.items = []) : s.size = s.entrySize s.realmId := by
  have hm : ∀ id ∈ s.flos, id = s.realmId := by
    intro id hm
    refine not_not.mp fun hr => ?_
    have hm := h.mem_items.mpr ⟨hm, hr, rfl⟩
    simp [hi] at hm
  rw [h.size_eq, sum_eq_entrySize_add s s.realmId, HashMap.sum_eq_zero, Nat.add_zero]
  intro id hid
  have ⟨hne, hmem⟩ := AList.mem_erase.mp hid
  exact hne <| hm id hmem

theorem Wf.size_eq_add_weight (h : s.Wf) :
    s.size = s.entrySize s.realmId + Queue.weight s.items := by
  induction hi : s.items generalizing s
  case nil => simpa using h.size_eq_entrySize hi
  case cons i q hind =>
    have ⟨hq, hs⟩ := h.items_removeFurthest hi
    have hr := h.removeFurthest.lookup_removeFurthest
    have hind := hind h.removeFurthest hq
    have he : s.removeFurthest.entrySize s.removeFurthest.realmId = s.entrySize s.realmId := by
      rw [(frame_removeFurthest s).realmId]
      refine entrySize_congr <| (h.lookup_removeFurthest s.realmId).resolve_right ?_
      exact fun hn => hn.right rfl
    rw [Queue.weight_cons]
    omega

-- The loop ends exactly if the flo of the realm fits alone.
theorem Wf.trims_iff (h : s.Wf) :
    (∃ s', Trims s s') ↔ s.entrySize s.realmId ≤ s.realmConfig.maxSpace := by
  rw [Queue.trims_iff (show evictionQueue.Inv s from h)]
  change s.size ≤ s.realmConfig.maxSpace + Queue.weight s.items ↔ _
  rw [h.size_eq_add_weight]
  omega

-- What is evicted before an entry.
def ahead (s : RealmStorage) (id : FloID) : List (FloID × Nat) :=
  s.items.takeWhile (·.1 ≠ id)

-- The loop does not have to evict the entry.
def Spares (s : RealmStorage) (id : FloID) : Prop :=
  id = s.realmId ∨ s.size ≤ s.realmConfig.maxSpace + Queue.weight (s.ahead id)

theorem Wf.items_eq_ahead (h : s.Wf) (hm : (id, w) ∈ s.items) :
    ∃ q, s.items = s.ahead id ++ (id, w) :: q ∧ (id, w) ∉ q := by
  have ⟨p, q, hq⟩ := List.append_of_mem hm
  have hn := h.nodup_itemsBelow 256
  rw [← items, hq, List.map_append, List.map_cons] at hn
  have hp : ∀ i ∈ p, i.1 ≠ id := fun i hi he =>
    (List.nodup_append.mp hn).right.right _ (List.mem_map_of_mem hi) id (by simp) he
  refine ⟨q, ?_, fun hmq => ?_⟩
  case refine_1 =>
    rw [ahead, hq, List.takeWhile_append_of_pos fun i hi => by simpa using hp i hi,
      List.takeWhile_cons_of_neg (by simp), List.append_nil]
  case refine_2 =>
    have hn := (List.nodup_append.mp hn).right.left
    exact (List.nodup_cons.mp hn).left <| List.mem_map_of_mem hmq

theorem Trims.mem_iff (ht : Trims s s') (h : s.Wf) :
    id ∈ s'.flos ↔ id ∈ s.flos ∧ s.Spares id := by
  have htr := ht.trimmed h
  by_cases hr : id = s.realmId
  case pos =>
    subst hr
    simp only [HashMap.mem_iff_lookup, htr.lookup_realmId, Spares, true_or, and_true]
  case neg =>
    simp only [Spares, hr, false_or]
    constructor
    case mp =>
      intro hm
      have hl := htr.mem hm
      have hms : id ∈ s.flos := by rwa [HashMap.mem_iff_lookup, ← hl, ← HashMap.mem_iff_lookup]
      have ⟨q, hq, hn⟩ := h.items_eq_ahead <| h.mem_items.mpr ⟨hms, hr, rfl⟩
      refine ⟨hms, (Queue.Trims.spares_iff ht h hq hn).mp ?_⟩
      exact htr.wf.mem_items.mpr ⟨hm, htr.frame.realmId ▸ hr, (entrySize_congr hl).symm⟩
    case mpr =>
      intro ⟨hm, hs⟩
      have ⟨q, hq, hn⟩ := h.items_eq_ahead <| h.mem_items.mpr ⟨hm, hr, rfl⟩
      exact (htr.wf.mem_items.mp <| (Queue.Trims.spares_iff ht h hq hn).mpr hs).left

end RealmStorage
