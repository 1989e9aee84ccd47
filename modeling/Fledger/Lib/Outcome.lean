import Mathlib.Tactic.Common

namespace Outcome

universe u v

variable {ε : Type v} {α β : Type u} {x : Except ε α} {f : α → Except ε β} {a c : α} {b : β} {e : ε}
  {γ : Type}

@[simp]
theorem bind_eq_ok : x >>= f = .ok b ↔ ∃ a, x = .ok a ∧ f a = .ok b := by
  cases x <;> simp [bind, Except.bind]

@[simp]
theorem pure_eq_ok : (pure a : Except ε α) = .ok c ↔ a = c := by
  simp [pure, Except.pure]

@[simp]
theorem throw_ne_ok : (throw e : Except ε α) ≠ .ok c := by
  simp [throw, throwThe, MonadExceptOf.throw]

@[simp]
theorem map_eq_ok {g : α → β} : g <$> x = .ok b ↔ ∃ a, x = .ok a ∧ g a = b := by
  cases x <;> simp [Functor.map, Except.map]

theorem mapError_eq_ok {ε' : Type*} {m : ε → ε'} : x.mapError m = .ok c ↔ x = .ok c := by
  cases x <;> simp [Except.mapError]

@[simp]
theorem ok_bind : (Except.ok a : Except ε α) >>= f = f a :=
  rfl

@[simp]
theorem ite_throw_eq_ok {p : Prop} [Decidable p] :
    (if p then throw e else x) = .ok c ↔ ¬p ∧ x = .ok c := by
  split <;> simp_all

theorem bind_eq_error : x >>= f = .error e ↔ x = .error e ∨ ∃ a, x = .ok a ∧ f a = .error e := by
  cases x <;> simp [bind, Except.bind]

theorem pure_ne_error : (pure a : Except ε α) ≠ .error e := by
  simp [pure, Except.pure]

theorem mapM_eq_ok {δ : Type*} {f : δ → Except ε β} {ds : List δ} {bs : List β} :
    ds.mapM f = .ok bs ↔ ds.map f = bs.map .ok := by
  induction ds generalizing bs
  case nil => cases bs <;> simp
  case cons d ds hi =>
    rw [List.mapM_cons]
    simp only [bind_eq_ok, pure_eq_ok, hi]
    cases bs
    case nil => simp
    case cons b bs =>
      simp only [List.map_cons, List.cons.injEq]
      constructor
      case mp =>
        rintro ⟨b', hb, bs', hs, rfl, rfl⟩
        exact ⟨hb, hs⟩
      case mpr => exact fun h => ⟨b, h.left, bs, h.right, rfl, rfl⟩

theorem andM_eq_true {x y : Except ε Bool} :
    (x <&&> y) = .ok true ↔ x = .ok true ∧ y = .ok true := by
  cases x
  case error => simp [andM, bind, Except.bind]
  case ok b  => cases b <;> simp [andM, toBool]

theorem andM_eq_error {x y : Except ε Bool} :
    (x <&&> y) = .error e ↔ x = .error e ∨ x = .ok true ∧ y = .error e := by
  cases x
  case error => simp [andM, bind, Except.bind]
  case ok b  => cases b <;> simp [andM, toBool, pure, Except.pure]

theorem ensure_eq_ok {x : Except ε Bool} {r : Except ε γ} {c : γ} :
    (do
      if !(← x) then throw e
      r) = .ok c ↔ x = .ok true ∧ r = .ok c := by
  simp only [bind_eq_ok]
  constructor
  case mp =>
    intro ⟨b, hb, h⟩
    cases b <;> simp at h
    exact ⟨hb, h⟩
  case mpr =>
    intro ⟨hb, h⟩
    exact ⟨true, hb, by simpa using h⟩

-- What fails is not the check, but one of the computations.
theorem ensure_eq_error {x : Except ε Bool} {r : Except ε γ} {e' : ε} (he : e ≠ e') :
    (do
      if !(← x) then throw e
      r) = .error e' ↔ x = .error e' ∨ x = .ok true ∧ r = .error e' := by
  cases x
  case error => simp [bind, Except.bind]
  case ok b  =>
    cases b
    case false => simp [bind, Except.bind, throw, throwThe, MonadExceptOf.throw, he]
    case true  => simp [bind, Except.bind]

end Outcome
