import Mathlib.Algebra.BigOperators.Group.List.Lemmas
import Mathlib.Algebra.FreeMonoid.Basic

-- Products which do not depend on the order of their factors.
namespace Commuting

theorem prod_eq_iff {M : Type*} [CancelMonoid M] {l : List M} :
    (∀ l' : List M, l'.Perm l → l'.prod = l.prod) ↔ l.Pairwise Commute := by
  constructor
  case mpr =>
    intro hc l' hp
    exact (hp.symm.prod_eq' hc).symm
  case mp =>
    intro h
    induction l
    case nil => exact .nil
    case cons a l hi =>
      refine .cons (fun b hb => ?_) (hi fun l' hp => ?_)
      case refine_1 =>
        -- The two factors can be moved to the front, in both orders.
        obtain ⟨s, t, rfl⟩ := List.append_of_mem hb
        have hp : (b :: (s ++ t)).Perm (s ++ b :: t) := List.perm_middle.symm
        have hab := h _ (hp.cons a)
        have hba := h _ ((List.Perm.swap a b _).trans (hp.cons a))
        have he := hab.trans hba.symm
        simp only [List.prod_cons, ← mul_assoc] at he
        exact mul_right_cancel he
      case refine_2 =>
        have he := h _ (hp.cons a)
        rw [List.prod_cons, List.prod_cons] at he
        exact mul_left_cancel he

-- The same for lists which are appended.
theorem flatten_eq_iff {α : Type*} {ls : List (List α)} :
    (∀ ls' : List (List α), ls'.Perm ls → ls'.flatten = ls.flatten) ↔
      ls.Pairwise fun a b => a ++ b = b ++ a := by
  have hf (ls : List (FreeMonoid α)) : ls.prod = List.flatten ls :=
    (FreeMonoid.toList_prod ls).trans (congrArg List.flatten (List.map_id ls))
  refine (forall₂_congr fun ls' _ => ?_).trans <| prod_eq_iff (M := FreeMonoid α) (l := ls)
  exact Eq.congr (hf ls').symm (hf ls).symm

end Commuting
