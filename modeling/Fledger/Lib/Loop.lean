import Mathlib.Logic.Function.Iterate
import Mathlib.Tactic.Common

namespace Loop

variable {σ : Type*} (guard : σ → Bool) (body : σ → σ)

-- `while guard { body }`, stopped after `fuel` checks of the guard.
def run : Nat → σ → Option σ
  | 0, _        => none
  | fuel + 1, s => if guard s then run fuel (body s) else some s

-- The same loop with a body which has effects.
def runM {m : Type _ → Type*} [Monad m] (guard : σ → Bool) (body : σ → m σ) : Nat → σ → m (Option σ)
  | 0, _        => pure none
  | fuel + 1, s => if guard s then body s >>= runM guard body fuel else pure (some s)

-- The loop started in `s` ends in `s'`.
def Exits (s s' : σ) : Prop :=
  ∃ fuel, run guard body fuel s = some s'

def Terminates (s : σ) : Prop :=
  ∃ s', Exits guard body s s'

variable {guard body} {s s' s₁ s₂ : σ}

theorem Exits.stop (h : guard s = false) : Exits guard body s s :=
  ⟨1, by simp [run, h]⟩

theorem Exits.step (h : guard s = true) (e : Exits guard body (body s) s') :
    Exits guard body s s' := by
  have ⟨fuel, e⟩ := e
  exact ⟨fuel + 1, by simp [run, h, e]⟩

theorem Exits.stop_iff (h : guard s = false) : Exits guard body s s' ↔ s' = s := by
  constructor
  case mpr =>
    intro hs
    subst hs
    exact .stop h
  case mp =>
    intro ⟨fuel, e⟩
    cases fuel <;> simp [run, h] at e
    exact e.symm

theorem Exits.step_iff (h : guard s = true) :
    Exits guard body s s' ↔ Exits guard body (body s) s' := by
  constructor
  case mpr => exact .step h
  case mp =>
    intro ⟨fuel, e⟩
    cases fuel <;> simp [run, h] at e
    exact ⟨_, e⟩

-- The rule for partial correctness.
theorem Exits.invariant {P : σ → Prop} (e : Exits guard body s s') (init : P s)
    (step : ∀ s, guard s = true → P s → P (body s)) : P s' ∧ guard s' = false := by
  obtain ⟨fuel, e⟩ := e
  induction fuel generalizing s <;> simp only [run, reduceCtorEq] at e
  case succ hi =>
    split at e
    case isTrue h  => exact hi (step _ h init) e
    case isFalse h => cases e; exact ⟨init, by simpa using h⟩

theorem Exits.guard_eq_false (e : Exits guard body s s') : guard s' = false :=
  e.invariant (P := fun _ => True) trivial (fun _ _ _ => trivial) |>.right

theorem Exits.deterministic (e₁ : Exits guard body s s₁) (e₂ : Exits guard body s s₂) :
    s₁ = s₂ := by
  obtain ⟨fuel, e₁⟩ := e₁
  induction fuel generalizing s <;> simp only [run, reduceCtorEq] at e₁
  case succ hi =>
    split at e₁
    case isTrue h  => exact hi (step_iff h |>.mp e₂) e₁
    case isFalse h => cases e₁; exact (stop_iff (by simpa using h) |>.mp e₂).symm

-- The rule for total correctness: an invariant under which the variant decreases.
theorem Terminates.of_variant {P : σ → Prop} (variant : σ → Nat) (init : P s)
    (step : ∀ s, guard s = true → P s → P (body s) ∧ variant (body s) < variant s) :
    Terminates guard body s := by
  induction h : variant s using Nat.strongRecOn generalizing s
  case ind n hi =>
    cases hg : guard s
    case false => exact ⟨s, .stop hg⟩
    case true =>
      have ⟨hinv, hlt⟩ := step s hg init
      have ⟨s', e⟩ := hi _ (h ▸ hlt) hinv rfl
      exact ⟨s', .step hg e⟩

theorem run_mono {n m : Nat} (h : run guard body n s = some s') (hle : n ≤ m) :
    run guard body m s = some s' := by
  induction n generalizing s m <;> simp only [run, reduceCtorEq] at h
  case succ n hi =>
    obtain ⟨m, rfl⟩ := Nat.exists_eq_add_of_le' (Nat.one_le_of_lt hle)
    rw [run]
    split at h
    case isTrue hg  => simp only [hg, if_true]; exact hi h (by omega)
    case isFalse hg => simpa [hg] using h

-- A body without effects under an invariant.
theorem runM_eq_pure {m : Type _ → Type*} [Monad m] [LawfulMonad m] {bodyM : σ → m σ} {P : σ → Prop}
    (init : P s) (step : ∀ s, P s → bodyM s = pure (body s) ∧ P (body s)) (fuel : Nat) :
    runM guard bodyM fuel s = pure (run guard body fuel s) := by
  induction fuel generalizing s
  case zero => rfl
  case succ fuel hi =>
    have ⟨hb, hp⟩ := step s init
    rw [runM, run]
    split
    case isTrue  => rw [hb, pure_bind, hi hp]
    case isFalse => rfl

-- The loop leaves at the first iterate of its body which fails the guard.
theorem exits_iff_iterate :
    Exits guard body s s' ↔
      ∃ n, s' = body^[n] s ∧ guard (body^[n] s) = false ∧
        ∀ m < n, guard (body^[m] s) = true := by
  constructor
  case mp =>
    intro ⟨fuel, e⟩
    induction fuel generalizing s <;> simp only [run, reduceCtorEq] at e
    case succ hi =>
      split at e
      case isFalse h =>
        cases e
        exact ⟨0, rfl, by simpa using h, by simp⟩
      case isTrue h =>
        have ⟨n, hs, hf, ht⟩ := hi e
        refine ⟨n + 1, hs, hf, fun m hm => ?_⟩
        cases m
        case zero   => exact h
        case succ m => exact ht m (by omega)
  case mpr =>
    intro ⟨n, hs, hf, ht⟩
    induction n generalizing s
    case zero => exact hs ▸ .stop hf
    case succ n hi =>
      refine .step (ht 0 (by omega)) <| hi hs hf fun m hm => ?_
      exact ht (m + 1) (by omega)

end Loop
