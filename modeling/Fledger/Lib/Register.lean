import Mathlib.Data.List.Basic
import Mathlib.Order.Basic

-- A register, and a series of writers of which some leave it as it is.
namespace Register

variable {W A S T : Type*} {f : W → Option A} {w : W} {ws : List W} {v : A}

-- What the last of them writes.
def last (f : W → Option A) (ws : List W) : Option A :=
  (ws.filterMap f).getLast?

-- A value of the writer of the latest time.
def Latest [LE T] (time : W → T) (f : W → Option A) (ws : List W) (v : A) : Prop :=
  ∃ w ∈ ws, f w = some v ∧ ∀ u ∈ ws, (f u).isSome → time u ≤ time w

theorem last_cons : last f (w :: ws) = (last f ws).or (f w) := by
  cases hf : f w
  case none   => rw [last, List.filterMap_cons_none hf, Option.or_none, last]
  case some v =>
    rw [last, List.filterMap_cons_some hf, List.getLast?_cons, last, Option.or_some]

-- A series of steps which write to the register.
theorem foldl_eq (get : S → Option A) {step : S → W → S}
    (h : ∀ s w, get (step s w) = (f w).or (get s)) (s : S) :
    get (ws.foldl step s) = (last f ws).or (get s) := by
  induction ws generalizing s
  case nil             => rfl
  case cons w ws hi => rw [List.foldl_cons, hi, h, last_cons, Option.or_assoc]

-- What the register had before does not matter, if there is somebody who writes.
theorem Latest.or_eq_some_iff [LE T] {time : W → T} {o : Option A} (h : Latest time f ws v) :
    (last f ws).or o = some v ↔ last f ws = some v := by
  cases hl : last f ws
  case none   =>
    obtain ⟨w, hm, hw, _⟩ := h
    rw [last, List.getLast?_eq_none_iff, List.filterMap_eq_nil_iff] at hl
    cases hw.symm.trans (hl w hm)
  case some u => rw [Option.some_or]

-- In the order of their times, the last writer is the one of the latest time.
theorem last_of_sorted [Preorder T] {time : W → T}
    (hs : ws.Pairwise fun u w => time u < time w) (h : Latest time f ws v) :
    last f ws = some v := by
  induction ws
  case nil =>
    obtain ⟨_, hm, _⟩ := h
    cases hm
  case cons w ws hi =>
    obtain ⟨u, hm, hu, hl⟩ := h
    obtain ⟨hw, hs⟩ := List.pairwise_cons.mp hs
    rw [last_cons]
    cases List.mem_cons.mp hm
    case inl he =>
      -- None of the later writers writes.
      subst he
      have hn : last f ws = none := by
        rw [last, List.getLast?_eq_none_iff, List.filterMap_eq_nil_iff]
        intro x hx
        refine Option.not_isSome_iff_eq_none.mp fun hf => ?_
        exact (hw x hx).not_ge <| hl x (List.mem_cons_of_mem u hx) hf
      rw [hn, hu, Option.none_or]
    case inr hm =>
      have hl' : ∀ x ∈ ws, (f x).isSome → time x ≤ time u :=
        fun x hx => hl x (List.mem_cons_of_mem w hx)
      rw [hi hs ⟨u, hm, hu, hl'⟩, Option.some_or]

end Register
