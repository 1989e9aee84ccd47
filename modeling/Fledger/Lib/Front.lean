import Mathlib.Data.List.Perm.Basic

namespace List

variable {α : Type*} {p : α → Bool} {xs : List α}

-- No element with the property stands behind one without it.
def Front (p : α → Bool) (xs : List α) : Prop :=
  xs.Pairwise fun a b => p b → p a

namespace Front

theorem eq_append (h : Front p xs) : xs = xs.filter p ++ xs.filter (!p ·) := by
  induction xs
  case nil => rfl
  case cons x xs hi =>
    have ⟨hx, h⟩ := pairwise_cons.mp h
    by_cases hp : p x
    case pos =>
      rw [filter_cons_of_pos hp, filter_cons_of_neg (by simpa using hp), cons_append]
      exact congrArg _ (hi h)
    case neg =>
      have hn : ∀ b ∈ x :: xs, ¬p b := forall_mem_cons.mpr ⟨hp, fun b hb hpb => hp (hx b hb hpb)⟩
      rw [filter_eq_nil_iff.mpr hn, nil_append, filter_eq_self.mpr]
      simpa using hn

theorem takeWhile_eq (h : Front p xs) : xs.takeWhile p = xs.filter p := by
  induction xs
  case nil => rfl
  case cons x xs hi =>
    have ⟨hx, h⟩ := pairwise_cons.mp h
    by_cases hp : p x
    case pos => rw [takeWhile_cons_of_pos hp, filter_cons_of_pos hp, hi h]
    case neg =>
      rw [takeWhile_cons_of_neg hp, eq_comm, filter_eq_nil_iff]
      exact forall_mem_cons.mpr ⟨hp, fun b hb hpb => hp (hx b hb hpb)⟩

theorem drop_eq (h : Front p xs) : xs.drop (xs.filter p).length = xs.filter (!p ·) :=
  calc
    _ = (xs.filter p ++ xs.filter (!p ·)).drop (xs.filter p).length := by rw [← h.eq_append]
    _ = _                                                           := drop_left

-- The elements with the property are cut off by their number.
theorem iff_drop : Front p xs ↔ ∀ x ∈ xs.drop (xs.filter p).length, ¬p x := by
  constructor
  case mp =>
    intro h x hx
    rw [h.drop_eq] at hx
    simpa using (mem_filter.mp hx).right
  case mpr =>
    intro h
    have hl : (xs.filter p).length ≤ xs.length := length_filter_le ..
    have hc : ((xs.take (xs.filter p).length).filter p).length =
        (xs.take (xs.filter p).length).length := by
      have hd := filter_eq_nil_iff.mpr h
      have ha := congrArg (filter p) (take_append_drop (xs.filter p).length xs)
      rw [filter_append, hd, append_nil] at ha
      rw [ha, length_take_of_le hl]
    have ht := length_filter_eq_length_iff.mp hc
    rw [← take_append_drop (xs.filter p).length xs, Front, pairwise_append]
    refine ⟨?_, ?_, fun a ha _ _ _ => ht a ha⟩
    case refine_1 => exact pairwise_of_forall_mem_list fun a ha _ _ _ => ht a ha
    case refine_2 => exact pairwise_of_forall_mem_list fun _ _ b hb hp => absurd hp (h b hb)

end Front

end List
