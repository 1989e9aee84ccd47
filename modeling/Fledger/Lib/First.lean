import Fledger.Lib.Outcome
import Mathlib.Data.List.Basic
import Mathlib.Data.List.Range

-- A series of checks, of which one goes wrong after all those before it have passed.
inductive First {α : Type*} (passes fails : α → Prop) : List α → Prop
  | here {a as} : fails a → First passes fails (a :: as)
  | there {a as} : passes a → First passes fails as → First passes fails (a :: as)

namespace First

variable {α β : Type*} {passes fails : α → Prop} {a : α} {as bs : List α}

theorem not_nil : ¬First passes fails [] :=
  nofun

theorem cons_iff :
    First passes fails (a :: as) ↔ fails a ∨ passes a ∧ First passes fails as := by
  constructor
  case mp =>
    intro h
    cases h
    case here h    => exact .inl h
    case there h t => exact .inr ⟨h, t⟩
  case mpr =>
    intro h
    cases h
    case inl h => exact .here h
    case inr h => exact .there h.left h.right

theorem append_iff : First passes fails (as ++ bs) ↔
    First passes fails as ∨ (∀ a ∈ as, passes a) ∧ First passes fails bs := by
  induction as
  case nil          => simp [not_nil]
  case cons a as hi =>
    rw [List.cons_append, cons_iff, cons_iff, hi, List.forall_mem_cons]
    constructor
    case mp =>
      rintro (h | ⟨h, ht | ⟨hp, ht⟩⟩)
      · exact .inl (.inl h)
      · exact .inl (.inr ⟨h, ht⟩)
      · exact .inr ⟨⟨h, hp⟩, ht⟩
    case mpr =>
      rintro ((h | ⟨h, ht⟩) | ⟨⟨h, hp⟩, ht⟩)
      · exact .inl h
      · exact .inr ⟨h, .inl ht⟩
      · exact .inr ⟨h, .inr ⟨hp, ht⟩⟩

theorem singleton_iff : First passes fails [a] ↔ fails a := by
  simp [cons_iff, not_nil]

theorem exists_mem (h : First passes fails as) : ∃ a ∈ as, fails a := by
  induction h
  case here h     => exact ⟨_, List.mem_cons_self, h⟩
  case there hi =>
    obtain ⟨a, hm, ha⟩ := hi
    exact ⟨a, List.mem_cons_of_mem _ hm, ha⟩

theorem map_iff {f : β → α} {bs : List β} : First passes fails (bs.map f) ↔
    First (fun b => passes (f b)) (fun b => fails (f b)) bs := by
  induction bs
  case nil          => simp [not_nil]
  case cons b bs hi => rw [List.map_cons, cons_iff, cons_iff, hi]

theorem range_iff {passes fails : Nat → Prop} {n : Nat} : First passes fails (List.range n) ↔
    ∃ k < n, fails k ∧ ∀ j < k, passes j := by
  induction n
  case zero => simp [not_nil]
  case succ n hi =>
    rw [List.range_succ, append_iff, hi, singleton_iff]
    simp only [List.mem_range]
    constructor
    case mp =>
      rintro (⟨k, hk, hf⟩ | ⟨hp, hf⟩)
      case inl => exact ⟨k, by omega, hf⟩
      case inr => exact ⟨n, by omega, hf, hp⟩
    case mpr =>
      rintro ⟨k, hk, hf, hp⟩
      rcases Nat.lt_succ_iff_lt_or_eq.mp hk with hk | rfl
      case inl => exact .inl ⟨k, hk, hf, hp⟩
      case inr => exact .inr ⟨hp, hf⟩

end First

namespace Outcome

universe u v

variable {ε : Type v} {α : Type*} {β : Type u} {f : α → Except ε β} {as : List α} {e : ε}

-- What is mapped is evaluated up to the first error.
theorem mapM_eq_error : as.mapM f = .error e ↔
    First (fun a => ∃ b, f a = .ok b) (fun a => f a = .error e) as := by
  induction as
  case nil => simp [First.not_nil, pure, Except.pure]
  case cons a as hi =>
    rw [List.mapM_cons, bind_eq_error, First.cons_iff, ← hi]
    simp only [bind_eq_error, pure_ne_error, and_false, exists_false, or_false]
    exact or_congr_right ⟨fun ⟨b, hb, h⟩ => ⟨⟨b, hb⟩, h⟩, fun ⟨⟨b, hb⟩, h⟩ => ⟨b, hb, h⟩⟩

end Outcome
