import Mathlib.Data.Multiset.Bind
import Mathlib.Logic.Relation

-- Items which give rise to further ones when they are taken, in whatever order that is.
namespace Offspring

variable {α : Type*} {children : α → Multiset α} {rank : α → Nat} {a b : α} {m n : Nat}
  {initial made left done : Multiset α}

-- What an item gives rise to within some generations.
def within (children : α → Multiset α) : Nat → α → Multiset α
  | 0,     _ => 0
  | n + 1, a => (children a).bind fun b => b ::ₘ within children n b

def Ranked (children : α → Multiset α) (rank : α → Nat) : Prop :=
  ∀ a, ∀ b ∈ children a, rank b < rank a

-- An item has not more generations after it than its rank.
def descendants (children : α → Multiset α) (rank : α → Nat) (a : α) : Multiset α :=
  within children (rank a) a

namespace Ranked

variable (h : Ranked children rank)

include h

theorem children_of_rank (hr : rank a = 0) : children a = 0 := by
  apply Multiset.eq_zero_of_forall_notMem
  intro b hb
  have := h a b hb
  omega

theorem within_eq (hm : rank a ≤ m) (hn : rank a ≤ n) :
    within children m a = within children n a := by
  induction m generalizing a n
  case zero =>
    have hc := h.children_of_rank <| Nat.le_zero.mp hm
    cases n <;> simp [within, hc]
  case succ m hi =>
    cases n
    case zero =>
      have hc := h.children_of_rank <| Nat.le_zero.mp hn
      simp [within, hc]
    case succ n =>
      rw [within, within]
      apply Multiset.bind_congr
      intro b hb
      have hb := h a b hb
      rw [hi (n := n) (by omega) (by omega)]

theorem descendants_eq (a : α) :
    descendants children rank a =
      (children a).bind fun b => b ::ₘ descendants children rank b := by
  have hw : descendants children rank a = within children (rank a + 1) a :=
    h.within_eq le_rfl (Nat.le_succ _)
  rw [hw, within]
  apply Multiset.bind_congr
  intro b hb
  have hb := h a b hb
  rw [h.within_eq (n := rank b) hb.le le_rfl, descendants]

-- All items at once, and then what is left of them.
theorem descendants_eq_add (a : α) :
    descendants children rank a =
      children a + (children a).bind (descendants children rank) := by
  rw [h.descendants_eq a, Multiset.bind_cons, Multiset.map_id']

theorem transGen_of_mem (hb : b ∈ descendants children rank a) :
    Relation.TransGen (fun a b => b ∈ children a) a b := by
  induction hr : rank a using Nat.strong_induction_on generalizing a
  case h n hi =>
    rw [h.descendants_eq_add, Multiset.mem_add, Multiset.mem_bind] at hb
    cases hb
    case inl hb => exact .single hb
    case inr hb =>
      have ⟨c, hc, hb⟩ := hb
      exact .head hc <| hi (rank c) (hr ▸ h a c hc) hb rfl

-- When some items have been taken, what there is and what is still to come is known from the
-- beginning.
theorem bind_descendants (hm : made = done.bind children) (hs : initial + made = left + done) :
    initial.bind (descendants children rank) = made + left.bind (descendants children rank) := by
  have hd : done.bind (descendants children rank) =
      made + made.bind (descendants children rank) := by
    rw [Multiset.bind_congr fun a _ => h.descendants_eq_add a, Multiset.bind_add, ← hm,
      ← Multiset.bind_assoc, ← hm]
  apply add_right_cancel (b := made.bind (descendants children rank))
  calc initial.bind (descendants children rank) + made.bind (descendants children rank)
    _ = (initial + made).bind (descendants children rank) := (Multiset.add_bind ..).symm
    _ = left.bind (descendants children rank) + done.bind (descendants children rank) := by
      rw [hs, Multiset.add_bind]
    _ = made + left.bind (descendants children rank) + made.bind (descendants children rank) := by
      rw [hd, ← add_assoc, add_comm made]

end Ranked

end Offspring
