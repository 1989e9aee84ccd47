import Mathlib.Data.List.Forall2

namespace List

universe u

variable {α : Type*} {β : Type u} {f : α → Option β} {as : List α} {bs : List β}

-- A traversal by a partial function has a result if each element has one.
theorem mapM_eq_some : as.mapM f = some bs ↔ Forall₂ (fun a b => f a = some b) as bs := by
  induction as generalizing bs
  case nil => cases bs <;> simp
  case cons a as hi =>
    simp only [mapM_cons, Option.pure_def, Option.bind_eq_bind, Option.bind_eq_some_iff,
      Option.some.injEq, hi]
    constructor
    case mp =>
      rintro ⟨b, hb, bs, hbs, rfl⟩
      exact .cons hb hbs
    case mpr =>
      intro h
      cases h
      case cons b bs hb hbs => exact ⟨b, hb, bs, hbs, rfl⟩

theorem exists_mapM_eq_some (h : ∀ a ∈ as, ∃ b, f a = some b) : ∃ bs, as.mapM f = some bs := by
  induction as
  case nil => exact ⟨[], rfl⟩
  case cons a as hi =>
    obtain ⟨b, hb⟩ := h a mem_cons_self
    obtain ⟨bs, hbs⟩ := hi fun a hm => h a (mem_cons_of_mem _ hm)
    simp [hb, hbs]

theorem filterMap_of_mapM (h : as.mapM f = some bs) : as.filterMap f = bs := by
  replace h := mapM_eq_some.mp h
  induction h
  case nil          => rfl
  case cons hb _ hi => rw [filterMap_cons_some hb, hi]

end List
