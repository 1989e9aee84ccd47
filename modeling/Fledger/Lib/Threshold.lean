import Mathlib.Data.List.Basic
import Mathlib.Tactic.Common

-- A boolean combination of atoms, in which a node is true if enough of its members are.
inductive Formula (α : Type*)
  | leaf (a : α)
  | const (b : Bool)
  | atLeast (t : Nat) (fs : List (Formula α))

namespace Formula

variable {α β : Type*}

theorem rec' {P : Formula α → Prop} (leaf : ∀ a, P (leaf a)) (const : ∀ b, P (const b))
    (atLeast : ∀ t fs, (∀ f ∈ fs, P f) → P (atLeast t fs)) (f : Formula α) : P f :=
  @Formula.rec α P (fun fs => ∀ f ∈ fs, P f) leaf const atLeast (by simp)
    (fun _ _ hf hfs => List.forall_mem_cons.mpr ⟨hf, hfs⟩) f

mutual

def eval (v : α → Bool) : Formula α → Bool
  | leaf a       => v a
  | const b      => b
  | atLeast t fs => t ≤ count v fs

-- How many of the formulas are true.
def count (v : α → Bool) : List (Formula α) → Nat
  | []      => 0
  | f :: fs => count v fs + if f.eval v then 1 else 0

end

mutual

def leaves : Formula α → List α
  | leaf a       => [a]
  | const _      => []
  | atLeast _ fs => leavesAll fs

def leavesAll : List (Formula α) → List α
  | []      => []
  | f :: fs => f.leaves ++ leavesAll fs

end

variable {v w : α → Bool} {f : Formula α} {fs : List (Formula α)} {a : α} {t : Nat}

@[simp]
theorem eval_leaf : (leaf a).eval v = v a := by
  simp [eval]

@[simp]
theorem eval_const {b : Bool} : (const b : Formula α).eval v = b := by
  simp [eval]

theorem count_eq_countP : count v fs = fs.countP (eval v) := by
  induction fs
  case nil => simp [count]
  case cons f fs hi => rw [count, hi, List.countP_cons]

@[simp]
theorem eval_atLeast : (atLeast t fs).eval v = decide (t ≤ fs.countP (eval v)) := by
  rw [eval, count_eq_countP]

theorem mem_leavesAll : a ∈ leavesAll fs ↔ ∃ f ∈ fs, a ∈ f.leaves := by
  induction fs
  case nil => simp [leavesAll]
  case cons f fs hi => simp [leavesAll, hi]

-- The value of a formula only depends on its leaves.
theorem eval_congr (h : ∀ a ∈ f.leaves, v a = w a) : f.eval v = f.eval w := by
  induction f using rec'
  case leaf a  => simpa [leaves] using h
  case const b => simp
  case atLeast t fs hi =>
    have he : ∀ f ∈ fs, f.eval v = f.eval w := fun f hf =>
      hi f hf fun a ha => h a <| mem_leavesAll.mpr ⟨f, hf, ha⟩
    rw [eval_atLeast, eval_atLeast, List.countP_congr fun f hf => by rw [he f hf]]

-- There are no negations, so a formula stays true when more of its leaves become true.
theorem eval_mono (h : ∀ a, v a = true → w a = true) (hf : f.eval v = true) : f.eval w = true := by
  induction f using rec'
  case leaf a  => simpa using h a (by simpa using hf)
  case const b => simpa using hf
  case atLeast t fs hi =>
    simp only [eval_atLeast, decide_eq_true_eq] at hf ⊢
    exact Nat.le_trans hf <| List.countP_mono_left hi

-- A formula which is false without true leaves has a true leaf if it is true.
theorem exists_leaf_of_eval (hf : f.eval (fun _ => false) = false) (hv : f.eval v = true) :
    ∃ a ∈ f.leaves, v a = true := by
  by_contra h
  have hn : ∀ a ∈ f.leaves, v a = false := fun a ha =>
    Bool.eq_false_iff.mpr fun hva => h ⟨a, ha, hva⟩
  rw [eval_congr hn, hf] at hv
  cases hv

-- Whether a formula can become true at all.
def satisfiable (f : Formula α) : Bool :=
  f.eval fun _ => true

theorem satisfiable_of_eval (h : f.eval v = true) : f.satisfiable = true :=
  eval_mono (fun _ _ => rfl) h

-- As soon as all leaves are true, nothing else can help.
theorem eval_eq_satisfiable (h : ∀ a ∈ f.leaves, v a = true) : f.eval v = f.satisfiable :=
  eval_congr h

mutual

-- Replaces the leaves by formulas.
def bind (g : α → Formula β) : Formula α → Formula β
  | leaf a       => g a
  | const b      => const b
  | atLeast t fs => atLeast t (bindAll g fs)

def bindAll (g : α → Formula β) : List (Formula α) → List (Formula β)
  | []      => []
  | f :: fs => f.bind g :: bindAll g fs

end

theorem bindAll_eq_map {g : α → Formula β} : bindAll g fs = fs.map (bind g) := by
  induction fs
  case nil => simp [bindAll]
  case cons f fs hi => simp [bindAll, hi]

theorem eval_bind {g : α → Formula β} {u : β → Bool} :
    (f.bind g).eval u = f.eval fun a => (g a).eval u := by
  induction f using rec'
  case leaf a  => simp [bind]
  case const b => simp [bind]
  case atLeast t fs hi =>
    simp only [bind, eval_atLeast, bindAll_eq_map, List.countP_map]
    rw [List.countP_congr fun f hf => by rw [Function.comp_apply, hi f hf]]

end Formula
