import Mathlib.Algebra.GroupWithZero.Nat
import Mathlib.Data.List.Basic

namespace List

variable {α : Type*} {xs : List α} {acc : Array α} {n : Nat}

theorem flatten_toChunks_go (n : Nat) (xs : List α) (acc₁ : Array α) (acc₂ : Array (List α)) :
    (toChunks.go n xs acc₁ acc₂).flatten = acc₂.toList.flatten ++ acc₁.toList ++ xs := by
  induction xs generalizing acc₁ acc₂
  case nil => simp [toChunks.go]
  case cons x xs hi =>
    unfold toChunks.go
    split <;> simp [hi]

theorem flatten_toChunks (n : Nat) (xs : List α) : (xs.toChunks n).flatten = xs := by
  unfold toChunks
  split
  case h_1 => rfl
  case h_2 => simp
  case h_3 => rw [flatten_toChunks_go]; simp

theorem toChunks_ne_nil (n : Nat) (h : xs ≠ []) : xs.toChunks n ≠ [] := by
  intro hn
  have hf := flatten_toChunks n xs
  rw [hn] at hf
  exact h hf.symm

theorem toChunks_go_append (n : Nat) (xs : List α) (acc₁ : Array α) (acc₂ : Array (List α)) :
    toChunks.go n xs acc₁ acc₂ = acc₂.toList ++ toChunks.go n xs acc₁ #[] := by
  induction xs generalizing acc₁ acc₂
  case nil => simp [toChunks.go]
  case cons x xs hi =>
    unfold toChunks.go
    split
    case isTrue =>
      rw [hi, hi _ (#[].push acc₁.toList)]
      simp
    case isFalse => exact hi _ _

theorem toChunks_cons (hn : 0 < n) (x : α) (xs : List α) :
    (x :: xs).toChunks n = toChunks.go n xs #[x] #[] := by
  cases n
  case zero => cases hn
  case succ => rfl

-- The chunk under way takes what it has room for.
theorem toChunks_go_eq (hn : 0 < n) (h : acc.size ≤ n) :
    toChunks.go n xs acc #[] =
      (acc.toList ++ xs.take (n - acc.size)) :: (xs.drop (n - acc.size)).toChunks n := by
  induction xs generalizing acc
  case nil => simp [toChunks.go, toChunks]
  case cons x xs hi =>
    unfold toChunks.go
    split
    case isTrue he =>
      have hz : n - acc.size = 0 := by simp_all
      rw [toChunks_go_append, hz, drop_zero, toChunks_cons hn]
      simp
    case isFalse he =>
      have hlt : acc.size < n := by
        simp only [beq_iff_eq] at he
        omega
      have hs : n - acc.size = n - (acc.push x).size + 1 := by
        rw [Array.size_push]
        omega
      rw [hi (by rw [Array.size_push]; omega), hs, take_succ_cons, drop_succ_cons,
        Array.toList_push, append_assoc, singleton_append]

theorem toChunks_of_ne_nil (hn : 0 < n) (h : xs ≠ []) :
    xs.toChunks n = xs.take n :: (xs.drop n).toChunks n := by
  cases xs
  case nil => cases h rfl
  case cons x xs =>
    obtain ⟨m, rfl⟩ := Nat.exists_eq_succ_of_ne_zero (Nat.ne_of_gt hn)
    rw [toChunks_cons hn, toChunks_go_eq hn (show #[x].size ≤ m.succ from hn)]
    rfl

-- The elements have sizes, and none is empty.
variable {size : α → Nat}

theorem length_le_sum (hp : ∀ x, 0 < size x) : xs.length ≤ (xs.map size).sum := by
  induction xs
  case nil => exact Nat.le_refl 0
  case cons x xs hi =>
    have hx := hp x
    rw [map_cons, sum_cons, length_cons]
    omega

theorem sum_le_length_iff (hp : ∀ x, 0 < size x) :
    (xs.map size).sum ≤ xs.length ↔ ∀ x ∈ xs, size x = 1 := by
  induction xs
  case nil => simp
  case cons x xs hi =>
    have hx := hp x
    have hl : xs.length ≤ (xs.map size).sum := length_le_sum hp
    rw [map_cons, sum_cons, length_cons, forall_mem_cons, ← hi]
    omega

-- Chunks are cut by the number of elements, so that a full one is as large as it is long only
-- if all of its elements have size one.
theorem forall_toChunks_sum_le_iff (hn : 0 < n) (hp : ∀ x, 0 < size x) :
    (∀ c ∈ xs.toChunks n, (c.map size).sum ≤ n) ↔
      (∀ x ∈ xs.take (xs.length / n * n), size x = 1) ∧
        ((xs.drop (xs.length / n * n)).map size).sum ≤ n := by
  induction hl : xs.length using Nat.strongRecOn generalizing xs
  case ind l hi =>
    subst hl
    by_cases hx : xs = []
    case pos =>
      subst hx
      simp [toChunks]
    rw [toChunks_of_ne_nil hn hx, forall_mem_cons]
    rcases Nat.lt_or_ge xs.length n with h | h
    case inl =>
      rw [Nat.div_eq_of_lt h, Nat.zero_mul, take_of_length_le (Nat.le_of_lt h),
        drop_of_length_le (Nat.le_of_lt h)]
      simp [toChunks]
    case inr =>
      have hd : xs.length / n * n = n + (xs.drop n).length / n * n := by
        rw [length_drop, Nat.div_eq_sub_div hn h, Nat.add_mul, Nat.one_mul, Nat.add_comm]
      have ht : (xs.take n).length = n := length_take_of_le h
      have hc : ((xs.take n).map size).sum ≤ n ↔ ∀ x ∈ xs.take n, size x = 1 := by
        rw [← sum_le_length_iff hp, ht]
      rw [hc, hi _ (by rw [length_drop]; omega) rfl, hd, take_add, ← drop_drop, forall_mem_append,
        and_assoc]

end List
