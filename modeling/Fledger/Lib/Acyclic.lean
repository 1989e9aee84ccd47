import Mathlib.Order.WellFoundedSet

namespace Relation

variable {α : Type*} {r : α → α → Prop} {a b : α}

theorem not_self_of_acc (h : Acc r a) : ¬r a a := by
  induction h
  case intro a _ hi => exact fun ha => hi a ha ha

theorem acc_of_reflTransGen (h : ReflTransGen r b a) (ha : Acc r a) : Acc r b := by
  induction h using ReflTransGen.head_induction_on
  case refl         => exact ha
  case head hb _ hi => exact hi.inv hb

-- Among finitely many, a descent can only go on for ever in a cycle.
theorem acc_iff_forall_not_transGen [Finite α] :
    Acc r a ↔ ∀ b, ReflTransGen r b a → ¬TransGen r b b := by
  constructor
  case mp  => exact fun ha b hb => not_self_of_acc (acc_of_reflTransGen hb ha).transGen
  case mpr =>
    intro h
    let q : {b // ReflTransGen r b a} → {b // ReflTransGen r b a} → Prop :=
      fun b c => TransGen r b c
    have : IsTrans _ q := ⟨fun _ _ _ hb hc => hb.trans hc⟩
    have : Std.Irrefl q := ⟨fun b => h b b.property⟩
    have hq : WellFounded q := Finite.wellFounded_of_trans_of_irrefl q
    refine Set.WellFoundedOn.acc_iff_wellFoundedOn.out 0 1 |>.mpr ?_
    exact hq.mono fun _ _ hb => TransGen.single hb

end Relation
