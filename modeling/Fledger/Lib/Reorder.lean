import Fledger.Lib.HashMap

namespace List

variable {α β : Type*} {f : α → β} {as : List α} {a : α}

theorem exists_perm_cons (h : a ∈ as) : ∃ bs, (a :: bs).Perm as := by
  obtain ⟨s, t, rfl⟩ := List.append_of_mem h
  exact ⟨s ++ t, perm_middle.symm⟩

-- A list does not change with its order exactly if all its members are the same.
theorem forall_perm_map_eq_iff :
    (∀ bs : List α, bs.Perm as → bs.map f = as.map f) ↔ ∀ a ∈ as, ∀ b ∈ as, f a = f b := by
  constructor
  case mp  =>
    intro h a ha b hb
    obtain ⟨as₁, h₁⟩ := exists_perm_cons ha
    obtain ⟨as₂, h₂⟩ := exists_perm_cons hb
    exact head_eq_of_cons_eq <| (h _ h₁).trans (h _ h₂).symm
  case mpr =>
    intro h bs hp
    cases as
    case nil         => rw [hp.eq_nil]
    case cons a as   =>
      have hc {cs : List α} (hs : ∀ c ∈ cs, c ∈ a :: as) :
          cs.map f = replicate cs.length (f a) :=
        map_eq_replicate_iff.mpr fun c hm => h c (hs c hm) a mem_cons_self
      rw [hc fun c => hp.mem_iff.mp, hc fun _ => id, hp.length_eq]

theorem flatMap_pair_inj {ps qs : List (α × α)} :
    (ps.flatMap fun p => [p.1, p.2]) = (qs.flatMap fun q => [q.1, q.2]) ↔ ps = qs := by
  induction ps generalizing qs
  case nil          => cases qs <;> simp
  case cons p ps hi =>
    cases qs
    case nil       => simp
    case cons q qs =>
      simp only [flatMap_cons, cons_append, nil_append, cons.injEq, hi, Prod.ext_iff, and_assoc]

end List

namespace HashMap

variable {K V β : Type*} [DecidableEq K] {S : V → V → Prop} {f : K × V → β} {m m' : HashMap K V}

-- `==` on hash maps, given that on their values.
def Same (S : V → V → Prop) (m m' : HashMap K V) : Prop :=
  ∀ k, Option.Rel S (m.lookup k) (m'.lookup k)

-- The value of one key is replaced.
def replace (m : HashMap K V) (k : K) (w : V) : HashMap K V :=
  m.mapValues fun i v => if i = k then w else v

-- All entries give the same, also those which could take their places in an equal map.
structure Alike (S : V → V → Prop) (f : K × V → β) (m : HashMap K V) : Prop where
  values  : ∀ e ∈ m.pairs, ∀ w, S e.2 w → f (e.1, w) = f e
  entries : ∀ e ∈ m.pairs, ∀ e' ∈ m.pairs, f e = f e'

theorem same_of_lookup (hr : ∀ v, S v v) (h : ∀ k, m'.lookup k = m.lookup k) : m.Same S m' := by
  intro k
  rw [h]
  cases m.lookup k
  case none   => exact .none
  case some v => exact .some (hr v)

theorem same_refl (hr : ∀ v, S v v) (m : HashMap K V) : m.Same S m :=
  same_of_lookup hr fun _ => rfl

theorem Same.exists_lookup (h : m.Same S m') {k : K} {w : V} (hw : m'.lookup k = some w) :
    ∃ v, m.lookup k = some v ∧ S v w := by
  have hk := h k
  rw [hw] at hk
  cases hl : m.lookup k <;> rw [hl] at hk
  case none   => cases hk
  case some v =>
    cases hk
    case some hs => exact ⟨v, rfl, hs⟩

theorem Same.mem_iff (h : m.Same S m') {k : K} : k ∈ m ↔ k ∈ m' := by
  have hk := h k
  rw [← AList.lookup_isSome, ← AList.lookup_isSome]
  generalize m.lookup k = o, m'.lookup k = o' at hk ⊢
  cases hk <;> simp

theorem Same.length_pairs (h : m.Same S m') : m'.pairs.length = m.pairs.length := by
  have hp : m'.keys.Perm m.keys :=
    (List.perm_ext_iff_of_nodup m'.keys_nodup m.keys_nodup).mpr fun _ => h.mem_iff.symm
  simpa [AList.keys, List.keys, pairs] using hp.length_eq

theorem Same.perm_pairs (h : m.Same Eq m') : m'.pairs.Perm m.pairs := by
  have hn {m : HashMap K V} : m.pairs.Nodup := .of_map Prod.fst (nodup_pairs m)
  refine (List.perm_ext_iff_of_nodup hn hn).mpr fun ⟨k, v⟩ => ?_
  have hk : m.lookup k = m'.lookup k := by
    have hk := h k
    generalize m.lookup k = o, m'.lookup k = o' at hk ⊢
    cases hk <;> simp_all
  rw [mem_pairs, mem_pairs, hk]

theorem lookup_replace {k : K} {v w : V} (h : m.lookup k = some v) :
    (m.replace k w).lookup k = some w := by
  rw [replace, lookup_mapValues, h]
  simp

theorem same_replace (hr : ∀ v, S v v) {k : K} {v w : V} (h : m.lookup k = some v) (hs : S v w) :
    m.Same S (m.replace k w) := by
  intro i
  rw [replace, lookup_mapValues]
  cases hi : m.lookup i
  case none   => exact .none
  case some x =>
    refine .some ?_
    split
    case isTrue hk =>
      rw [hk, h] at hi
      exact Option.some.inj hi ▸ hs
    case isFalse   => exact hr x

-- The entries can be in any order.
theorem exists_pairs_eq {ps : List (K × V)} (hp : ps.Perm m.pairs) :
    ∃ m' : HashMap K V, m'.pairs = ps ∧ ∀ k, m'.lookup k = m.lookup k := by
  let m' : HashMap K V := {
    entries   := ps.map fun e => ⟨e.1, e.2⟩
    nodupKeys := by
      have hn : (ps.map Prod.fst).Nodup := (hp.map _).nodup_iff.mpr (nodup_pairs m)
      rw [List.NodupKeys, List.keys, List.map_map]
      exact hn
  }
  have hps : m'.pairs = ps := by
    rw [pairs, List.map_map]
    exact List.map_id ps
  refine ⟨m', hps, fun k => Option.ext fun v => ?_⟩
  rw [← mem_pairs, ← mem_pairs, hps, hp.mem_iff]

theorem alike_of_forall (hr : ∀ v, S v v)
    (h : ∀ m', m.Same S m' → m'.pairs.map f = m.pairs.map f) : m.Alike S f := by
  constructor
  case values  =>
    intro e he w hw
    have hm := h _ <| same_replace hr (mem_pairs.mp he) hw
    rw [replace, pairs_mapValues, List.map_map, List.map_inj_left] at hm
    simpa using hm e he
  case entries =>
    apply List.forall_perm_map_eq_iff.mp
    intro ps hp
    obtain ⟨m', rfl, hl⟩ := exists_pairs_eq hp
    exact h m' (same_of_lookup hr hl)

theorem Alike.eq_of_mem (h : m.Alike S f) (hs : m.Same S m') {e e' : K × V} (he : e ∈ m.pairs)
    (he' : e' ∈ m'.pairs) : f e' = f e := by
  obtain ⟨v, hv, hw⟩ := hs.exists_lookup (mem_pairs.mp he')
  have hm : (e'.1, v) ∈ m.pairs := mem_pairs.mpr hv
  exact (h.values _ hm _ hw).trans (h.entries _ hm _ he)

theorem Alike.map_pairs (h : m.Alike S f) (hr : ∀ v, S v v) (hs : m.Same S m') :
    m'.pairs.map f = m.pairs.map f := by
  cases hp : m.pairs
  case nil       =>
    have hl := hs.length_pairs
    rw [hp] at hl
    rw [List.length_eq_zero_iff.mp hl]
  case cons e es =>
    have he : e ∈ m.pairs := hp ▸ List.mem_cons_self
    have hm {m' : HashMap K V} (hs : m.Same S m') :
        m'.pairs.map f = List.replicate m'.pairs.length (f e) :=
      List.map_eq_replicate_iff.mpr fun _ he' => h.eq_of_mem hs he he'
    rw [← hp, hm hs, hm (same_refl hr m), hs.length_pairs]

-- What is made of the entries in their order is the same for all equal maps.
theorem forall_same_iff (hr : ∀ v, S v v) :
    (∀ m', m.Same S m' → m'.pairs.map f = m.pairs.map f) ↔ m.Alike S f := by
  constructor
  case mp  => exact alike_of_forall hr
  case mpr => exact fun h _ hs => h.map_pairs hr hs

omit [DecidableEq K] in
-- If the keys can be told apart, then there is no second entry.
theorem entries_iff_length_le (hf : ∀ e e', f e = f e' → e.1 = e'.1) :
    (∀ e ∈ m.pairs, ∀ e' ∈ m.pairs, f e = f e') ↔ m.pairs.length ≤ 1 := by
  have hn := nodup_pairs m
  match hp : m.pairs with
  | []           => simp
  | [e]          => simp
  | e :: e' :: _ =>
    rw [hp] at hn
    refine iff_of_false (fun h => ?_) (by simp)
    have he := hf e e' (h e (by simp) e' (by simp))
    simp [he] at hn

-- The same where the values have only one form.
theorem forall_same_eq_iff (hf : ∀ e e', f e = f e' → e.1 = e'.1) :
    (∀ m', m.Same Eq m' → m'.pairs.map f = m.pairs.map f) ↔ m.pairs.length ≤ 1 := by
  rw [forall_same_iff fun _ => rfl, ← entries_iff_length_le hf]
  constructor
  case mp  => exact Alike.entries
  case mpr => exact fun h => ⟨fun _ _ _ hw => hw ▸ rfl, h⟩

end HashMap
