import Mathlib.Algebra.BigOperators.Group.Multiset.Basic
import Mathlib.Algebra.Order.Group.Multiset
import Mathlib.Data.List.Perm.Basic

-- Lists whose order does not matter, and the element at a position.
namespace Bag

variable {α : Type*} {l : List α} {k : Nat} {a b : α}

theorem coe_eraseIdx (h : l[k]? = some a) :
    (l : Multiset α) = {a} + (l.eraseIdx k : Multiset α) := by
  obtain ⟨hk, rfl⟩ := List.getElem?_eq_some_iff.mp h
  exact (Multiset.coe_eq_coe.mpr <| List.getElem_cons_eraseIdx_perm hk).symm

theorem coe_set (h : l[k]? = some a) (b : α) :
    (l.set k b : Multiset α) = {b} + (l.eraseIdx k : Multiset α) := by
  obtain ⟨hk, _⟩ := List.getElem?_eq_some_iff.mp h
  exact Multiset.coe_eq_coe.mpr <| List.set_perm_cons_eraseIdx hk b

theorem coe_concat (l : List α) (a : α) : ((l ++ [a] : List α) : Multiset α) = l + {a} :=
  rfl

theorem sum_eraseIdx {M : Type*} [AddCommMonoid M] (h : l[k]? = some a) (f : α → M) :
    (Multiset.map f l).sum = f a + (Multiset.map f (l.eraseIdx k)).sum := by
  rw [coe_eraseIdx h, Multiset.map_add, Multiset.sum_add, Multiset.map_singleton,
    Multiset.sum_singleton]

theorem sum_set {M : Type*} [AddCommMonoid M] (h : l[k]? = some a) (b : α) (f : α → M) :
    (Multiset.map f (l.set k b)).sum = f b + (Multiset.map f (l.eraseIdx k)).sum := by
  rw [coe_set h, Multiset.map_add, Multiset.sum_add, Multiset.map_singleton,
    Multiset.sum_singleton]

theorem length_eraseIdx (h : l[k]? = some a) : l.length = (l.eraseIdx k).length + 1 := by
  obtain ⟨hk, _⟩ := List.getElem?_eq_some_iff.mp h
  rw [List.length_eraseIdx_of_lt hk]
  omega

end Bag
