import Mathlib.Algebra.GroupWithZero.Nat
import Mathlib.Data.List.AList
import Mathlib.Data.List.Induction

-- A hash map, together with the order in which it happens to be iterated.
abbrev HashMap (K V : Type*) :=
  AList fun _ : K => V

namespace HashMap

variable {K V : Type*} (m : HashMap K V)

def values : List V :=
  m.entries.map Sigma.snd

def pairs : List (K × V) :=
  m.entries.map fun e => (e.1, e.2)

-- What an insertion makes of the order.
abbrev Rehash (K V : Type*) :=
  (m : HashMap K V) → { m' : HashMap K V // m'.entries.Perm m.entries }

def Rehash.same : Rehash K V :=
  fun m => ⟨m, .refl _⟩

-- The map happens to be iterated the other way round.
def Rehash.reverse : Rehash K V :=
  fun m =>
    ⟨⟨m.entries.reverse, m.nodupKeys.perm <| m.entries.reverse_perm.symm.map _⟩,
      m.entries.reverse_perm⟩

-- The keys of a value.
def keysOf [DecidableEq V] (v : V) : List K :=
  (m.pairs.filter (·.2 = v)).map Prod.fst

-- The sum of a quantity over all values.
def sum (f : V → Nat) : Nat :=
  (m.entries.map fun e => f e.2).sum

-- The values are changed where they are, as by `iter_mut`.
def mapValues {W : Type*} (f : K → V → W) : HashMap K W where
  entries   := m.entries.map fun e => ⟨e.1, f e.1 e.2⟩
  nodupKeys := by
    rw [List.NodupKeys, List.keys, List.map_map]
    exact m.nodupKeys

variable [DecidableEq K] {m} {k i : K} {v w : V} {f : V → Nat}

theorem lookup_insert_of_ne (h : i ≠ k) : (m.insert k v).lookup i = m.lookup i :=
  AList.lookup_insert_ne h

theorem lookup_insert_eq (i k : K) (v : V) :
    (m.insert k v).lookup i = if i = k then some v else m.lookup i := by
  split
  case isTrue h  => exact h ▸ AList.lookup_insert m
  case isFalse h => exact AList.lookup_insert_ne h

theorem lookup_erase_eq (i k : K) :
    (m.erase k).lookup i = if i = k then none else m.lookup i := by
  split
  case isTrue h  => exact h ▸ AList.lookup_erase k m
  case isFalse h => exact AList.lookup_erase_ne h

theorem entries_erase (k : K) : (m.erase k).entries = m.entries.kerase k :=
  rfl

theorem lookup_rehash (rehash : Rehash K V) (i : K) : (rehash m).1.lookup i = m.lookup i :=
  AList.perm_lookup (rehash m).2

theorem lookup_foldl_erase (ks : List K) (i : K) :
    (ks.foldl (fun m k => m.erase k) m).lookup i = if i ∈ ks then none else m.lookup i := by
  induction ks generalizing m
  case nil => rfl
  case cons k ks hi =>
    rw [List.foldl_cons, hi, lookup_erase_eq]
    by_cases hk : i = k <;> simp [hk]

theorem erase_insert (k : K) (v : V) : (m.insert k v).erase k = m.erase k := by
  refine AList.ext ?_
  rw [entries_erase, entries_erase]
  have hc : k = (Sigma.mk (β := fun _ => V) k v).1 := rfl
  rw [AList.entries_insert, List.kerase_cons_eq hc]

-- `entry(k).and_modify(g)`.
def modify (m : HashMap K V) (k : K) (g : V → V) : HashMap K V :=
  match m.lookup k with
  | some v => m.insert k (g v)
  | none   => m

theorem lookup_modify (i k : K) (g : V → V) :
    (modify m k g).lookup i = if i = k then (m.lookup k).map g else m.lookup i := by
  unfold modify
  split
  case h_1 v hv => rw [lookup_insert_eq, hv]; rfl
  case h_2 hv =>
    split
    case isTrue h  => rw [h, hv]; rfl
    case isFalse h => rfl

theorem lookup_foldl_modify {ks : List K} (hn : ks.Nodup) (i : K) (g : V → V) :
    (ks.foldl (fun m k => modify m k g) m).lookup i =
      if i ∈ ks then (m.lookup i).map g else m.lookup i := by
  induction ks generalizing m
  case nil => rfl
  case cons k ks hi =>
    have ⟨hk, hn⟩ := List.nodup_cons.mp hn
    rw [List.foldl_cons, hi hn, lookup_modify]
    by_cases he : i = k
    case pos =>
      subst he
      simp [hk]
    case neg => simp [he]

theorem lookup_mapValues {W : Type*} (f : K → V → W) (i : K) :
    (m.mapValues f).lookup i = (m.lookup i).map (f i) := by
  have h (es : List (Sigma fun _ : K => V)) :
      (es.map fun e => Sigma.mk (β := fun _ => W) e.1 (f e.1 e.2)).dlookup i =
        (es.dlookup i).map (f i) := by
    induction es
    case nil => rfl
    case cons e es hi =>
      obtain ⟨k, v⟩ := e
      by_cases hk : k = i
      case pos =>
        subst hk
        simp
      case neg =>
        have hk : i ≠ k := Ne.symm hk
        rw [List.map_cons, List.dlookup_cons_ne _ ⟨k, _⟩ hk, hi,
          List.dlookup_cons_ne es (⟨k, v⟩ : Sigma fun _ => V) hk]
  exact h m.entries

omit [DecidableEq K] in
theorem pairs_mapValues {W : Type*} (f : K → V → W) :
    (m.mapValues f).pairs = m.pairs.map fun e => (e.1, f e.1 e.2) := by
  simp only [pairs, mapValues, List.map_map]
  rfl

theorem mem_iff_lookup : k ∈ m ↔ ∃ v, m.lookup k = some v := by
  rw [← AList.lookup_isSome, Option.isSome_iff_exists]

theorem not_mem_iff_lookup : k ∉ m ↔ m.lookup k = none :=
  AList.lookup_eq_none.symm

theorem mem_pairs : (k, v) ∈ m.pairs ↔ m.lookup k = some v := by
  constructor
  case mp =>
    intro h
    have ⟨⟨_, _⟩, he, hk⟩ := List.mem_map.mp h
    cases hk
    exact AList.mem_lookup_iff.mpr he
  case mpr =>
    intro h
    exact List.mem_map.mpr ⟨⟨k, v⟩, AList.mem_lookup_iff.mp h, rfl⟩

theorem mem_values : v ∈ m.values ↔ ∃ k, m.lookup k = some v := by
  constructor
  case mp =>
    intro h
    have ⟨⟨k, _⟩, he, hv⟩ := List.mem_map.mp h
    cases hv
    exact ⟨k, AList.mem_lookup_iff.mpr he⟩
  case mpr =>
    intro ⟨k, h⟩
    exact List.mem_map.mpr ⟨⟨k, v⟩, AList.mem_lookup_iff.mp h, rfl⟩

theorem mapValues_congr {W : Type*} {f g : K → V → W}
    (h : ∀ k v, m.lookup k = some v → f k v = g k v) : m.mapValues f = m.mapValues g := by
  refine AList.ext <| List.map_congr_left fun e he => ?_
  rw [h e.1 e.2 <| AList.mem_lookup_iff.mpr he]

omit [DecidableEq K] in
theorem mapValues_id : (m.mapValues fun _ v => v) = m :=
  AList.ext <| List.map_id _

omit [DecidableEq K] in
theorem mapValues_mapValues {W X : Type*} (f : K → V → W) (g : K → W → X) :
    (m.mapValues f).mapValues g = m.mapValues fun k v => g k (f k v) :=
  AList.ext List.map_map

-- What belongs to one key, of all that is made of the entries.
theorem filter_flatMap_pairs {α : Type*} {key : α → K} {g : K → V → List α}
    (hg : ∀ k v, ∀ a ∈ g k v, key a = k) (m : HashMap K V) (i : K) :
    (m.pairs.flatMap fun e => g e.1 e.2).filter (key · = i) =
      ((m.lookup i).map (g i)).getD [] := by
  have h (es : List (Sigma fun _ : K => V)) (hn : es.NodupKeys) :
      (es.flatMap fun e => g e.1 e.2).filter (key · = i) =
        ((es.dlookup i).map (g i)).getD [] := by
    induction es
    case nil => rfl
    case cons e es hi =>
      obtain ⟨k, v⟩ := e
      have ⟨hk, hn⟩ := List.nodupKeys_cons.mp hn
      rw [List.flatMap_cons, List.filter_append, hi hn]
      by_cases he : k = i
      case pos =>
        subst he
        have hs : (g k v).filter (key · = k) = g k v :=
          List.filter_eq_self.mpr fun a ha => decide_eq_true (hg k v a ha)
        rw [hs, List.dlookup_eq_none.mpr hk, List.dlookup_cons_eq]
        exact List.append_nil _
      case neg =>
        have hs : (g k v).filter (key · = i) = [] := by
          apply List.filter_eq_nil_iff.mpr
          exact fun a ha h => he <| (hg k v a ha).symm.trans (of_decide_eq_true h)
        rw [hs, List.dlookup_cons_ne es (⟨k, v⟩ : Sigma fun _ => V) (Ne.symm he)]
        rfl
  have hm := h m.entries m.nodupKeys
  rw [pairs, List.flatMap_map]
  exact hm

omit [DecidableEq K] in
theorem map_fst_pairs (m : HashMap K V) : m.pairs.map Prod.fst = m.keys := by
  rw [pairs, List.map_map]
  rfl

omit [DecidableEq K] in
theorem map_snd_pairs (m : HashMap K V) : m.pairs.map Prod.snd = m.values := by
  rw [pairs, values, List.map_map]
  rfl

omit [DecidableEq K] in
theorem nodup_pairs (m : HashMap K V) : (m.pairs.map Prod.fst).Nodup :=
  map_fst_pairs m ▸ m.keys_nodup

-- A search for the only entry which can be found.
theorem find?_pairs {p : V → Bool} (h : ∀ i v, m.lookup i = some v → p v → i = k) :
    (m.pairs.find? (p ·.2)).map Prod.fst = if (m.lookup k).any p then some k else none := by
  cases hf : m.pairs.find? (p ·.2)
  case none =>
    have hn := List.find?_eq_none.mp hf
    symm
    refine if_neg fun ha => ?_
    obtain ⟨v, hv, hp⟩ := Option.any_eq_true _ _ |>.mp ha
    exact hn (k, v) (mem_pairs.mpr hv) hp
  case some e =>
    obtain ⟨i, v⟩ := e
    have hl := mem_pairs.mp <| List.mem_of_find?_eq_some hf
    have hp : p v := by simpa using List.find?_some hf
    cases h i v hl hp
    simp [hl, hp]

theorem mem_filter_pairs (p : V → Bool) (m : HashMap K V) (k : K) :
    k ∈ (m.pairs.filter (p ·.2)).map Prod.fst ↔ (m.lookup k).any p := by
  constructor
  case mp =>
    intro h
    obtain ⟨⟨_, v⟩, he, rfl⟩ := List.mem_map.mp h
    have ⟨he, hp⟩ := List.mem_filter.mp he
    exact Option.any_eq_true _ _ |>.mpr ⟨v, mem_pairs.mp he, hp⟩
  case mpr =>
    intro h
    obtain ⟨v, hl, hp⟩ := Option.any_eq_true _ _ |>.mp h
    exact List.mem_map.mpr ⟨(k, v), List.mem_filter.mpr ⟨mem_pairs.mpr hl, hp⟩, rfl⟩

theorem count_filter_pairs (p : V → Bool) (m : HashMap K V) (k : K) :
    ((m.pairs.filter (p ·.2)).map Prod.fst).count k = if (m.lookup k).any p then 1 else 0 := by
  have hn : ((m.pairs.filter (p ·.2)).map Prod.fst).Nodup :=
    (nodup_pairs m).sublist <| List.filter_sublist.map _
  simp only [hn.count, mem_filter_pairs]

theorem eq_empty (h : ∀ k, m.lookup k = none) : m = ∅ := by
  refine AList.ext <| List.eq_nil_iff_forall_not_mem.mpr fun e he => ?_
  have hl := AList.mem_lookup_iff.mpr he
  rw [h] at hl
  cases hl

section

variable [DecidableEq V]

theorem mem_keysOf : k ∈ m.keysOf v ↔ m.lookup k = some v := by
  simp [keysOf, mem_pairs]

omit [DecidableEq K] in
theorem nodup_keysOf (m : HashMap K V) (v : V) : (m.keysOf v).Nodup :=
  (nodup_pairs m).sublist <| List.filter_sublist.map _

omit [DecidableEq K] in
theorem length_keysOf (m : HashMap K V) (v : V) : (m.keysOf v).length = m.values.count v := by
  rw [keysOf, List.length_map, ← List.countP_eq_length_filter, ← map_snd_pairs,
    List.count_eq_countP, List.countP_map]
  rfl

end

theorem sum_eq_of_lookup (h : m.lookup k = some v) :
    sum m f = f v + sum (m.erase k) f := by
  have hk : k ∈ m.keys := AList.mem_keys.mp <| mem_iff_lookup.mpr ⟨v, h⟩
  have ⟨w, l₁, l₂, _, hl, he⟩ := List.exists_of_kerase hk
  have hw : m.lookup k = some w := AList.mem_lookup_iff.mpr (by simp [hl])
  have hv : w = v := Option.some.inj (hw.symm.trans h)
  have hm : (m.erase k).entries = l₁ ++ l₂ := he
  simp only [sum, hm, hl, hv, List.map_append, List.map_cons, List.sum_append, List.sum_cons]
  omega

theorem sum_insert (k : K) (v : V) : sum (m.insert k v) f = f v + sum (m.erase k) f := by
  simp [sum, AList.entries_insert, entries_erase]

theorem sum_erase_of_notMem (h : k ∉ m) : sum (m.erase k) f = sum m f := by
  have hk : k ∉ m.entries.keys := h
  simp [sum, entries_erase, List.kerase_of_notMem_keys hk]

omit [DecidableEq K] in
theorem sum_eq_zero (h : ∀ k, k ∉ m) : sum m f = 0 := by
  have he : m.entries = [] := by
    refine List.eq_nil_iff_forall_not_mem.mpr fun e he => h e.1 ?_
    exact AList.mem_keys.mpr <| List.mem_map_of_mem he
  simp [sum, he]

section Collect

variable {W : Type*} {l : List (K × V)}

-- What `collect` makes of pairs. Of those with the same key the last one stays.
def collect (l : List (K × V)) : HashMap K V :=
  l.foldl (fun m p => m.insert p.1 p.2) ∅

theorem collect_concat (l : List (K × V)) (p : K × V) :
    collect (l ++ [p]) = (collect l).insert p.1 p.2 := by
  rw [collect, List.foldl_append]
  rfl

theorem mem_of_lookup_collect (h : (collect l).lookup k = some v) : (k, v) ∈ l := by
  induction l using List.reverseRecOn
  case nil                     => cases h
  case append_singleton l p hi =>
    rw [collect_concat, lookup_insert_eq] at h
    split at h
    case isTrue hk =>
      cases h
      exact hk ▸ List.mem_append_right _ List.mem_cons_self
    case isFalse   => exact List.mem_append_left _ <| hi h

theorem mem_collect (h : (k, v) ∈ l) : k ∈ collect l := by
  induction l using List.reverseRecOn
  case nil                     => cases h
  case append_singleton l p hi =>
    rw [collect_concat, AList.mem_insert]
    cases List.mem_append.mp h
    case inl h => exact .inr <| hi h
    case inr h => exact .inl <| congrArg Prod.fst <| List.mem_singleton.mp h

-- The values are replaced, and the keys stay what they are.
theorem lookup_collect_pairs (m : HashMap K V) (f : V → W) (k : K) :
    (collect (m.pairs.map fun p => (p.1, f p.2))).lookup k = (m.lookup k).map f := by
  cases hl : m.lookup k
  case none   =>
    cases hc : (collect (m.pairs.map fun p => (p.1, f p.2))).lookup k
    case none   => rfl
    case some w =>
      obtain ⟨p, hp, he⟩ := List.mem_map.mp <| mem_of_lookup_collect hc
      cases he
      cases hl.symm.trans <| mem_pairs.mp hp
  case some v =>
    have hm : (k, f v) ∈ m.pairs.map fun p => (p.1, f p.2) :=
      List.mem_map.mpr ⟨(k, v), mem_pairs.mpr hl, rfl⟩
    obtain ⟨w, hw⟩ := mem_iff_lookup.mp <| mem_collect hm
    obtain ⟨p, hp, he⟩ := List.mem_map.mp <| mem_of_lookup_collect hw
    cases he
    rw [hw, Option.some.inj <| hl.symm.trans <| mem_pairs.mp hp]
    rfl

end Collect

end HashMap
