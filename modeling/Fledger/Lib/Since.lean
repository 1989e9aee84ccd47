import Mathlib.Data.List.Infix
import Mathlib.Tactic.Common

variable {σ ε : Type*}

-- Along a run of events, `P` does not hold after `old`, and then holds from the event `e` on.
structure Since (step : σ → ε → σ) (s : σ) (P : σ → Prop) (old : List ε) (e : ε)
    (recent : List ε) : Prop where
  before : ¬P (old.foldl step s)
  during : ∀ pre, pre <+: recent → P ((old ++ e :: pre).foldl step s)

namespace Since

variable {step : σ → ε → σ} {s : σ} {P : σ → Prop} {old recent : List ε} {e a : ε}

theorem start (hb : ¬P (old.foldl step s)) (hp : P ((old ++ [e]).foldl step s)) :
    Since step s P old e [] where
  before          := hb
  during pre hpre := by
    cases List.prefix_nil.mp hpre
    exact hp

theorem concat (h : Since step s P old e recent)
    (hp : P ((old ++ e :: (recent ++ [a])).foldl step s)) :
    Since step s P old e (recent ++ [a]) where
  before          := h.before
  during pre hpre := by
    cases List.prefix_concat_iff.mp hpre
    case inl he   => exact he ▸ hp
    case inr hpre => exact h.during pre hpre

theorem holds (h : Since step s P old e recent) : P ((old ++ e :: recent).foldl step s) :=
  h.during recent <| List.prefix_refl _

theorem of_concat (h : Since step s P old e (recent ++ [a])) : Since step s P old e recent where
  before          := h.before
  during pre hpre := h.during pre <| hpre.trans (List.prefix_append _ _)

-- What holds now and did not hold at the start holds since some event.
theorem exists_of_holds {events : List ε} (h₀ : ¬P s) (h : P (events.foldl step s)) :
    ∃ old e recent, events = old ++ e :: recent ∧ Since step s P old e recent := by
  induction events using List.reverseRecOn
  case nil => exact (h₀ h).elim
  case append_singleton events a hi =>
    by_cases hp : P (events.foldl step s)
    case pos =>
      obtain ⟨old, e, recent, rfl, hs⟩ := hi hp
      refine ⟨old, e, recent ++ [a], by simp, hs.concat ?_⟩
      simpa using h
    case neg => exact ⟨events, a, [], rfl, .start hp h⟩

-- The rule for what is true when it starts, and stays true.
theorem induction {Q : List ε → Prop} (h : Since step s P old e recent) (start : Q [])
    (next : ∀ recent a, Since step s P old e recent →
      P ((old ++ e :: (recent ++ [a])).foldl step s) → Q recent → Q (recent ++ [a])) :
    Q recent := by
  induction recent using List.reverseRecOn
  case nil => exact start
  case append_singleton recent a hi => exact next recent a h.of_concat h.holds (hi h.of_concat)

end Since
