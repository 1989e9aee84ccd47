import Mathlib.Data.List.Nodup

-- A map between two types in which each value occurs at most once, on both sides.
structure BiMap (L R : Type*) where
  pairs : List (L × R)
  left  : (pairs.map Prod.fst).Nodup
  right : (pairs.map Prod.snd).Nodup

namespace BiMap

variable {L R : Type*} {m : BiMap L R} {l l' : L} {r r' : R}

def empty : BiMap L R where
  pairs := []
  left  := List.nodup_nil
  right := List.nodup_nil

def filter (p : L × R → Bool) (m : BiMap L R) : BiMap L R where
  pairs := m.pairs.filter p
  left  := m.left.sublist <| List.filter_sublist.map _
  right := m.right.sublist <| List.filter_sublist.map _

variable [DecidableEq L] [DecidableEq R]

def getByLeft (m : BiMap L R) (l : L) : Option R :=
  (m.pairs.find? (·.1 = l)).map Prod.snd

def getByRight (m : BiMap L R) (r : R) : Option L :=
  (m.pairs.find? (·.2 = r)).map Prod.fst

-- The pairs with one of the new values are overwritten.
def insert (m : BiMap L R) (l : L) (r : R) : BiMap L R where
  pairs := (l, r) :: (m.filter fun pair => pair.1 ≠ l ∧ pair.2 ≠ r).pairs
  left  := by
    refine List.nodup_cons.mpr ⟨fun h => ?_, (m.filter _).left⟩
    obtain ⟨pair, hm, he⟩ := List.mem_map.mp h
    have hf := (List.mem_filter.mp hm).right
    simp [he] at hf
  right := by
    refine List.nodup_cons.mpr ⟨fun h => ?_, (m.filter _).right⟩
    obtain ⟨pair, hm, he⟩ := List.mem_map.mp h
    have hf := (List.mem_filter.mp hm).right
    simp [he] at hf

def removeByRight (m : BiMap L R) (r : R) : BiMap L R :=
  m.filter fun pair => pair.2 ≠ r

-- In a list without two elements of the same key, the first one with a key is the only one.
theorem find?_key_eq_some {A K : Type*} [DecidableEq K] {f : A → K} {as : List A} {a : A} {k : K}
    (hn : (as.map f).Nodup) : as.find? (f · = k) = some a ↔ a ∈ as ∧ f a = k := by
  constructor
  case mp => exact fun h => ⟨List.mem_of_find?_eq_some h, by simpa using List.find?_some h⟩
  case mpr =>
    intro ⟨hm, hk⟩
    have ⟨b, hf⟩ := Option.isSome_iff_exists.mp <|
      List.find?_isSome (p := fun b => decide (f b = k)) |>.mpr ⟨a, hm, by simpa using hk⟩
    have hb : f b = f a := by simpa [hk] using List.find?_some hf
    rw [hf, List.inj_on_of_nodup_map hn (List.mem_of_find?_eq_some hf) hm hb]

omit [DecidableEq L] in
theorem getByRight_eq_some : m.getByRight r = some l ↔ (l, r) ∈ m.pairs := by
  simp [getByRight, find?_key_eq_some m.right]

omit [DecidableEq R] in
theorem getByLeft_eq_some : m.getByLeft l = some r ↔ (l, r) ∈ m.pairs := by
  simp [getByLeft, find?_key_eq_some m.left]

theorem getByLeft_iff_getByRight : m.getByLeft l = some r ↔ m.getByRight r = some l := by
  rw [getByLeft_eq_some, getByRight_eq_some]

theorem mem_insert :
    (l', r') ∈ (m.insert l r).pairs ↔
      (l' = l ∧ r' = r) ∨ ((l', r') ∈ m.pairs ∧ l' ≠ l ∧ r' ≠ r) := by
  simp [insert, filter]

theorem getByRight_insert_iff : (m.insert l r).getByRight r' = some l' ↔
    (l' = l ∧ r' = r) ∨ (m.getByRight r' = some l' ∧ l' ≠ l ∧ r' ≠ r) := by
  rw [getByRight_eq_some, getByRight_eq_some, mem_insert]

theorem getByRight_of_insert (h : (m.insert l r).getByRight r' = some l') :
    (l' = l ∧ r' = r) ∨ (r' ≠ r ∧ m.getByRight r' = some l') := by
  rcases getByRight_insert_iff.mp h with hn | ⟨hm, _, hr⟩
  · exact .inl hn
  · exact .inr ⟨hr, hm⟩

omit [DecidableEq L] in
theorem getByRight_removeByRight_iff :
    (m.removeByRight r).getByRight r' = some l ↔ r' ≠ r ∧ m.getByRight r' = some l := by
  rw [getByRight_eq_some, getByRight_eq_some, removeByRight, filter, List.mem_filter, and_comm]
  simp

omit [DecidableEq L] in
theorem getByRight_of_removeByRight (h : (m.removeByRight r).getByRight r' = some l) :
    r' ≠ r ∧ m.getByRight r' = some l :=
  getByRight_removeByRight_iff.mp h

end BiMap
