import Fledger.Lib.Loop
import Mathlib.Algebra.GroupWithZero.Nat

-- A state which holds a queue of weighted items, the first of which can be dropped.
structure Queue (σ α : Type*) where
  items  : σ → List (α × Nat)
  load   : σ → Nat
  budget : σ → Nat
  pop    : σ → σ
  Inv    : σ → Prop
  pop_nil {s}      : Inv s → items s = [] → pop s = s
  pop_cons {s i q} : Inv s → items s = i :: q → items (pop s) = q ∧ load (pop s) + i.2 = load s
  pop_inv {s}      : Inv s → Inv (pop s) ∧ budget (pop s) = budget s

namespace Queue

variable {σ α : Type*} (Q : Queue σ α)

def weight (q : List (α × Nat)) : Nat :=
  (q.map Prod.snd).sum

-- The items are dropped until the load does not exceed the budget.
def Trims (s s' : σ) : Prop :=
  Loop.Exits (fun s => decide (Q.load s > Q.budget s)) Q.pop s s'

@[simp]
theorem weight_nil : weight ([] : List (α × Nat)) = 0 :=
  rfl

@[simp]
theorem weight_cons (i : α × Nat) (q : List (α × Nat)) : weight (i :: q) = i.2 + weight q :=
  rfl

@[simp]
theorem weight_append (p q : List (α × Nat)) : weight (p ++ q) = weight p + weight q := by
  simp [weight]

theorem weight_take_le (q : List (α × Nat)) {m n : Nat} (h : m ≤ n) :
    weight (q.take m) ≤ weight (q.take n) := by
  have ⟨k, hk⟩ := Nat.exists_eq_add_of_le h
  rw [hk, List.take_add, weight_append]
  exact Nat.le_add_right ..

theorem weight_take_le_weight (q : List (α × Nat)) (n : Nat) : weight (q.take n) ≤ weight q := by
  conv => rhs; rw [← List.take_append_drop n q, weight_append]
  exact Nat.le_add_right ..

variable {Q} {s s' : σ}

theorem inv_iterate (h : Q.Inv s) (n : Nat) :
    Q.Inv (Q.pop^[n] s) ∧ Q.budget (Q.pop^[n] s) = Q.budget s := by
  induction n generalizing s
  case zero => exact ⟨h, rfl⟩
  case succ n hi =>
    have ⟨hs, hb⟩ := Q.pop_inv h
    have ⟨hn, hbn⟩ := hi hs
    exact ⟨hn, hbn.trans hb⟩

theorem items_iterate (h : Q.Inv s) (n : Nat) :
    Q.items (Q.pop^[n] s) = (Q.items s).drop n ∧
    Q.load (Q.pop^[n] s) + weight ((Q.items s).take n) = Q.load s := by
  induction n generalizing s
  case zero => simp
  case succ n hi =>
    have ⟨hi, hl⟩ := hi (Q.pop_inv h).left
    rw [Function.iterate_succ_apply]
    cases hq : Q.items s
    case nil =>
      rw [Q.pop_nil h hq, hq] at hi hl
      rw [Q.pop_nil h hq]
      simpa using And.intro hi hl
    case cons i q =>
      have ⟨hp, hw⟩ := Q.pop_cons h hq
      rw [hp] at hi hl
      refine ⟨hi, ?_⟩
      rw [List.take_succ_cons, weight_cons]
      omega

theorem guard_eq_false {s : σ} :
    decide (Q.load s > Q.budget s) = false ↔ Q.load s ≤ Q.budget s := by
  simp

theorem Trims.load_le (h : Q.Trims s s') : Q.load s' ≤ Q.budget s' :=
  guard_eq_false.mp h.guard_eq_false

theorem Trims.eq_of_le (ht : Q.Trims s s') (h : Q.load s ≤ Q.budget s) : s' = s :=
  Loop.Exits.deterministic ht (.stop <| guard_eq_false.mpr h)

-- The loop drops no more items than it has to.
theorem Trims.exists_take (ht : Q.Trims s s') (h : Q.Inv s) : ∃ n,
    Q.items s' = (Q.items s).drop n ∧ Q.load s' + weight ((Q.items s).take n) = Q.load s ∧
    Q.load s' ≤ Q.budget s ∧ ∀ m < n, Q.budget s + weight ((Q.items s).take m) < Q.load s := by
  have ⟨n, hs, hf, hb⟩ := Loop.exits_iff_iterate.mp ht
  have ⟨hi, hl⟩ := items_iterate h n
  have hf := guard_eq_false.mp hf
  rw [(inv_iterate h n).right] at hf
  refine ⟨n, hs ▸ hi, hs ▸ hl, hs ▸ hf, fun m hm => ?_⟩
  have hb := of_decide_eq_true <| hb m hm
  have ⟨_, hl⟩ := items_iterate h m
  rw [(inv_iterate h m).right] at hb
  omega

-- The loop ends exactly if the rest fits after all items have been dropped.
theorem trims_iff (h : Q.Inv s) :
    (∃ s', Q.Trims s s') ↔ Q.load s ≤ Q.budget s + weight (Q.items s) := by
  constructor
  case mp =>
    intro ⟨s', ht⟩
    have ⟨n, _, hl, hb, _⟩ := ht.exists_take h
    have hw := weight_take_le_weight (Q.items s) n
    omega
  case mpr =>
    intro hl
    refine Loop.Terminates.of_variant (fun s => (Q.items s).length)
      (P := fun s => Q.Inv s ∧ Q.load s ≤ Q.budget s + weight (Q.items s)) ⟨h, hl⟩ ?_
    intro s hg ⟨h, hl⟩
    have hg := of_decide_eq_true hg
    have ⟨hp, hb⟩ := Q.pop_inv h
    cases hq : Q.items s
    case nil =>
      rw [hq, weight_nil] at hl
      omega
    case cons i q =>
      have ⟨hi, hw⟩ := Q.pop_cons h hq
      rw [hq, weight_cons] at hl
      refine ⟨⟨hp, ?_⟩, by simp [hi]⟩
      rw [hi, hb]
      omega

-- A prefix which is enough contains all items that the loop drops.
theorem length_le_of_enough {q r : List (α × Nat)} {n load budget : Nat}
    (hm : ∀ m < n, budget + weight (q.take m) < load) (hr : r <+: q)
    (hl : load ≤ budget + weight r) : n ≤ r.length := by
  refine Nat.le_of_not_lt fun hlt => ?_
  have hm := hm r.length hlt
  rw [← List.prefix_iff_eq_take.mp hr] at hm
  omega

-- An item is spared exactly if it is enough to drop the items in front of it.
theorem Trims.spares_iff (ht : Q.Trims s s') (h : Q.Inv s) {p q : List (α × Nat)} {i : α × Nat}
    (hq : Q.items s = p ++ i :: q) (hi : i ∉ q) :
    i ∈ Q.items s' ↔ Q.load s ≤ Q.budget s + weight p := by
  have ⟨n, hd, hl, hb, hm⟩ := ht.exists_take h
  rw [hq] at hd hl hm
  constructor
  case mp =>
    intro hp
    have hn : n ≤ p.length := by
      refine Nat.le_of_not_lt fun hlt => hi ?_
      have ⟨k, hk⟩ := Nat.exists_eq_add_of_lt hlt
      rw [hd, hk, Nat.add_assoc, List.drop_length_add_append, List.drop_succ_cons] at hp
      exact List.mem_of_mem_drop hp
    have hw := weight_take_le_weight p n
    rw [List.take_append_of_le_length hn] at hl
    omega
  case mpr =>
    intro hp
    have hn := length_le_of_enough hm (List.prefix_append p _) hp
    rw [hd, List.drop_append_of_le_length hn]
    simp

-- What is left of the budget after the loop, if it is enough to drop the items of `p`: the loop
-- stops at the first prefix which is enough.
theorem Trims.slack_iff (ht : Q.Trims s s') (h : Q.Inv s) {p q : List (α × Nat)} {a b : Nat}
    (hq : Q.items s = p ++ q) (hp : Q.load s ≤ Q.budget s + weight p) :
    Q.load s' + a ≤ Q.budget s + b ↔
      ∀ r, r <+: p → Q.load s ≤ Q.budget s + weight r → Q.load s + a ≤ Q.budget s + weight r + b := by
  have ⟨n, _, hl, hb, hm⟩ := ht.exists_take h
  rw [hq] at hl hm
  have hn := length_le_of_enough hm (List.prefix_append p _) hp
  rw [List.take_append_of_le_length hn] at hl
  constructor
  case mp =>
    intro hs r hr hlr
    have hrn := length_le_of_enough hm (hr.trans <| List.prefix_append p q) hlr
    have hw := weight_take_le p hrn
    rw [← List.prefix_iff_eq_take.mp hr] at hw
    omega
  case mpr =>
    intro hr
    have hr := hr (p.take n) (List.take_prefix n p) (by omega)
    omega

end Queue
