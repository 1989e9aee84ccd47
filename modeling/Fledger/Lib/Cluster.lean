import Mathlib.Logic.Function.Basic
import Mathlib.Logic.Function.Iterate
import Mathlib.Logic.Relation

-- Parties with states, which take inputs and put out something. What one of them puts out can become
-- an input of another one, and some inputs come from outside.
structure Cluster (ι S I O : Type*) where
  step    : ι → S → I → S → List O → Prop
  carries : ι → O → ι → I → Prop
  outside : ι → I → Prop

namespace Cluster

variable {ι S I O : Type*} [DecidableEq ι]

-- The states of the parties, with everything which came from outside and everything put out so far.
structure State (ι S I O : Type*) where
  parties : ι → S
  inputs  : List (ι × I)
  outputs : List (ι × O)

def start (parties : ι → S) : State ι S I O :=
  { parties, inputs := [], outputs := [] }

-- The party has got to another state, and has put out something.
def State.after (s : State ι S I O) (i : ι) (state : S) (out : List O) : State ι S I O :=
  { s with
    parties := Function.update s.parties i state
    outputs := s.outputs ++ out.map (i, ·)
  }

-- Nothing is said about when something is delivered, whether it is at all, and how many times.
inductive Step (c : Cluster ι S I O) : State ι S I O → State ι S I O → Prop
  | outside {s : State ι S I O} {i : ι} {input : I} {state : S} {out : List O}
    (allowed : c.outside i input) (taken : c.step i (s.parties i) input state out) :
    Step c s { s.after i state out with inputs := s.inputs ++ [(i, input)] }
  | deliver {s : State ι S I O} {i j : ι} {o : O} {input : I} {state : S} {out : List O}
    (sent : (j, o) ∈ s.outputs) (carried : c.carries j o i input)
    (taken : c.step i (s.parties i) input state out) : Step c s (s.after i state out)

def Runs (c : Cluster ι S I O) : State ι S I O → State ι S I O → Prop :=
  Relation.ReflTransGen c.Step

-- The party has taken an input from outside.
def State.fed (s : State ι S I O) (i : ι) (input : I) (state : S) (out : List O) :
    State ι S I O :=
  { s.after i state out with inputs := s.inputs ++ [(i, input)] }

section After

variable {c : Cluster ι S I O} {s : State ι S I O} {i j : ι} {party state : S} {input : I}
  {out : List O} {o : O}

theorem State.parties_after : (s.after i state out).parties i = state :=
  Function.update_self ..

theorem State.parties_after_of_ne (h : j ≠ i) : (s.after i state out).parties j = s.parties j :=
  Function.update_of_ne h ..

theorem State.parties_fed : (s.fed i input state out).parties i = state :=
  Function.update_self ..

theorem State.parties_fed_of_ne (h : j ≠ i) :
    (s.fed i input state out).parties j = s.parties j :=
  Function.update_of_ne h ..

theorem State.mem_outputs_fed (h : o ∈ out) : (i, o) ∈ (s.fed i input state out).outputs :=
  List.mem_append_right _ <| List.mem_map_of_mem h

theorem State.mem_outputs_after (h : o ∈ out) : (i, o) ∈ (s.after i state out).outputs :=
  List.mem_append_right _ <| List.mem_map_of_mem h

theorem Step.outside_of_eq (hp : s.parties i = party) (allowed : c.outside i input)
    (taken : c.step i party input state out) :
    Step c s (s.fed i input state out) :=
  .outside allowed (hp ▸ taken)

theorem Step.deliver_of_eq (hp : s.parties i = party) (sent : (j, o) ∈ s.outputs)
    (carried : c.carries j o i input) (taken : c.step i party input state out) :
    Step c s (s.after i state out) :=
  .deliver sent carried (hp ▸ taken)

end After

section Safety

-- What the parties keep as long as their inputs are fine, and what they put out then.
structure Keeps (c : Cluster ι S I O) (P : ι → S → Prop) (R : ι → I → Prop) (Q : ι → O → Prop) :
    Prop where
  state   : ∀ {i s input s' out}, P i s → R i input → c.step i s input s' out → P i s'
  output  : ∀ {i s input s' out}, P i s → R i input → c.step i s input s' out → ∀ o ∈ out, Q i o
  carried : ∀ {i j o input}, Q j o → c.carries j o i input → R i input

variable {c : Cluster ι S I O} {P : ι → S → Prop} {R : ι → I → Prop} {Q : ι → O → Prop}
  {s s' : State ι S I O}

-- All parties are fine, and so is everything they have put out.
structure Fine (P : ι → S → Prop) (Q : ι → O → Prop) (s : State ι S I O) : Prop where
  parties : ∀ i, P i (s.parties i)
  outputs : ∀ e ∈ s.outputs, Q e.1 e.2

omit [DecidableEq ι] in
theorem fine_start {parties : ι → S} (h : ∀ i, P i (parties i)) :
    Fine P Q (start parties : State ι S I O) :=
  ⟨h, fun _ hm => absurd hm List.not_mem_nil⟩

theorem Fine.after (h : Fine P Q s) {i : ι} {state : S} {out : List O} (hs : P i state)
    (ho : ∀ o ∈ out, Q i o) : Fine P Q (s.after i state out) where
  parties j := by
    by_cases hj : j = i
    case pos => rw [hj, State.parties_after]; exact hs
    case neg => rw [State.parties_after_of_ne hj]; exact h.parties j
  outputs e he := by
    rcases List.mem_append.mp he with he | he
    case inl => exact h.outputs e he
    case inr =>
      obtain ⟨o, hm, rfl⟩ := List.mem_map.mp he
      exact ho o hm

-- The inputs from outside are kept in the order in which they came.
theorem Step.inputs_subset (h : c.Step s s') : s.inputs ⊆ s'.inputs := by
  cases h
  case outside => exact List.subset_append_left ..
  case deliver => exact List.Subset.refl _

theorem Keeps.step (h : c.Keeps P R Q) (hf : Fine P Q s) (hs : c.Step s s')
    (hi : ∀ e ∈ s'.inputs, R e.1 e.2) : Fine P Q s' := by
  cases hs
  case outside i input _ _ _ taken =>
    have hr : R i input := hi (i, input) <| List.mem_append_right _ List.mem_cons_self
    have ha := hf.after (h.state (hf.parties i) hr taken) (h.output (hf.parties i) hr taken)
    exact ⟨ha.parties, ha.outputs⟩
  case deliver i _ _ _ _ _ sent carried taken =>
    have hr := h.carried (hf.outputs _ sent) carried
    exact hf.after (h.state (hf.parties i) hr taken) (h.output (hf.parties i) hr taken)

-- If everything which came from outside until the end of a run was fine, then so is everything else.
theorem Keeps.runs (h : c.Keeps P R Q) (hf : Fine P Q s) (hr : c.Runs s s')
    (hi : ∀ e ∈ s'.inputs, R e.1 e.2) : Fine P Q s' := by
  induction hr
  case refl            => exact hf
  case tail _ hs hrest => exact h.step (hrest fun e he => hi e (hs.inputs_subset he)) hs hi

-- Nothing else comes from outside than what is allowed to.
theorem Runs.outside {parties : ι → S} (h : c.Runs (start parties) s) :
    ∀ e ∈ s.inputs, c.outside e.1 e.2 := by
  induction h
  case refl          => exact fun _ hm => absurd hm List.not_mem_nil
  case tail hs hrest =>
    cases hs
    case deliver           => exact hrest
    case outside allowed _ =>
      exact List.forall_mem_append.mpr ⟨hrest, List.forall_mem_singleton.mpr allowed⟩

end Safety

section Liveness

-- What is taken for granted while something is on its way.
structure Setting (ι S I : Type*) where
  parties : (ι → S) → Prop
  input   : (ι → S) → ι → I → Prop

-- What is looked forward to: that something is put out, or that a party gets to some state.
structure Goal (ι S O : Type*) where
  output : ι → O → Prop
  state  : ι → S → Prop

-- In whatever states the parties are when something comes to one of them: there is an input which it
-- can be, the party does take a step with each such input, and whatever step this is, its end and what
-- it puts out are as expected.
structure Delivers (c : Cluster ι S I O) (b : Setting ι S I) (i : ι) (o : O) (j : ι)
    (P : S → List O → Prop) : Prop where
  input : ∀ {parties}, b.parties parties → ∃ input, c.carries i o j input ∧ b.input parties j input
  step  : ∀ {parties input}, b.parties parties → c.carries i o j input → b.input parties j input →
    ∃ state out, c.step j (parties j) input state out
  leads : ∀ {parties input state out}, b.parties parties → c.carries i o j input →
    b.input parties j input → c.step j (parties j) input state out → P state out

-- If something is delivered to a party, then the goal is reached, or the same is true of something the
-- party puts out; and this does not go on for ever.
inductive Inevitable (c : Cluster ι S I O) (b : Setting ι S I) (g : Goal ι S O) : ι → O → Prop
  | reached {i : ι} {o : O} : g.output i o → Inevitable c b g i o
  | handled {i j : ι} {o : O} {R : O → Prop}
    (delivers : c.Delivers b i o j fun state out => g.state j state ∨ ∃ o ∈ out, R o)
    (rest : ∀ o, R o → Inevitable c b g j o) : Inevitable c b g i o

-- What happens at a party.
structure Event (ι I O : Type*) where
  party : ι
  input : I
  out   : List O

-- A party handles an input, as the setting allows it.
def Takes (c : Cluster ι S I O) (b : Setting ι S I) (parties parties' : ι → S) (e : Event ι I O) :
    Prop :=
  b.input parties e.party e.input ∧ ∃ state,
    c.step e.party (parties e.party) e.input state e.out ∧
    parties' = Function.update parties e.party state

-- What happens for ever, in which states.
structure Run (ι S I O : Type*) where
  parties : Nat → ι → S
  events  : Nat → Event ι I O

-- Everything that is put out is delivered at some later time.
structure Fair (c : Cluster ι S I O) (b : Setting ι S I) (run : Run ι S I O) : Prop where
  steps    : ∀ n, c.Takes b (run.parties n) (run.parties (n + 1)) (run.events n)
  parties  : ∀ n, b.parties (run.parties n)
  delivers : ∀ n, ∀ o ∈ (run.events n).out, ∀ j, (∃ input, c.carries (run.events n).party o j input) →
    ∃ m > n, (run.events m).party = j ∧ c.carries (run.events n).party o j (run.events m).input

-- Something more is known about the parties.
def Setting.and (b : Setting ι S I) (P : (ι → S) → Prop) : Setting ι S I :=
  { b with parties := fun parties => b.parties parties ∧ P parties }

variable {c : Cluster ι S I O} {b : Setting ι S I} {g g' : Goal ι S O} {i j : ι} {o : O}
  {run : Run ι S I O}

omit [DecidableEq ι] in
theorem Delivers.mono {P Q : S → List O → Prop} (h : c.Delivers b i o j P)
    (hs : ∀ state out, P state out → Q state out) : c.Delivers b i o j Q where
  input             := h.input
  step              := h.step
  leads hb hc hi ht := hs _ _ <| h.leads hb hc hi ht

omit [DecidableEq ι] in
-- A party whose steps are given by a function.
theorem Delivers.of_exists {P : S → List O → Prop}
    (hd : ∀ {i s input s₁ s₂ out₁ out₂}, c.step i s input s₁ out₁ → c.step i s input s₂ out₂ →
      s₁ = s₂ ∧ out₁ = out₂)
    (hi : ∀ {parties}, b.parties parties → ∃ input, c.carries i o j input ∧ b.input parties j input)
    (h : ∀ {parties input}, b.parties parties → c.carries i o j input → b.input parties j input →
      ∃ state out, c.step j (parties j) input state out ∧ P state out) : c.Delivers b i o j P where
  input             := hi
  step hb hc hi     := by
    obtain ⟨state, out, ht, _⟩ := h hb hc hi
    exact ⟨state, out, ht⟩
  leads hb hc hi ht := by
    obtain ⟨_, _, ht', hp⟩ := h hb hc hi
    obtain ⟨rfl, rfl⟩ := hd ht ht'
    exact hp

omit [DecidableEq ι] in
-- A goal on the way to another one, to which it leads.
theorem Inevitable.trans (h : c.Inevitable b g i o) (hs : ∀ j s, g.state j s → g'.state j s)
    (ho : ∀ j o, g.output j o → c.Inevitable b g' j o) : c.Inevitable b g' i o := by
  induction h
  case reached i o h => exact ho i o h
  case handled i j o R delivers _ hi =>
    exact .handled (delivers.mono fun state _ hg => hg.imp_left (hs j state)) hi

omit [DecidableEq ι] in
-- What is put out on the way has a rank, which gets smaller from one party to the next one.
theorem Inevitable.of_rank {P : Nat → ι → O → Prop}
    (h : ∀ n i o, P n i o → c.Inevitable b g i o ∨ ∃ j, c.Delivers b i o j fun state out =>
      g.state j state ∨ ∃ o ∈ out, c.Inevitable b g j o ∨ ∃ m < n, P m j o)
    (n : Nat) (i : ι) (o : O) (hp : P n i o) : c.Inevitable b g i o := by
  induction n using Nat.strongRecOn generalizing i o
  case ind n hi =>
    rcases h n i o hp with hr | ⟨j, delivers⟩
    case inl => exact hr
    case inr =>
      refine .handled delivers fun o ho => ?_
      rcases ho with ho | ⟨m, hm, ho⟩
      · exact ho
      · exact hi m hm j o ho

-- What is left of a run once more is known about the parties.
theorem Fair.after {P : (ι → S) → Prop} {n : Nat} (hf : c.Fair b run)
    (hp : ∀ k ≥ n, P (run.parties k)) :
    c.Fair (b.and P) ⟨fun k => run.parties (n + k), fun k => run.events (n + k)⟩ where
  steps k            := hf.steps (n + k)
  parties k          := ⟨hf.parties (n + k), hp _ <| Nat.le_add_right ..⟩
  delivers k o ho j ha := by
    obtain ⟨m, hm, hd⟩ := hf.delivers (n + k) o ho j ha
    obtain ⟨i, rfl⟩ := Nat.exists_eq_add_of_le <|
      Nat.le_trans (Nat.le_add_right ..) (Nat.le_of_lt hm)
    exact ⟨i, Nat.lt_of_add_lt_add_left hm, hd⟩

-- What the steps keep is never lost.
theorem Fair.keeps {P : (ι → S) → Prop} (hf : c.Fair b run)
    (hs : ∀ {parties parties' e}, b.parties parties → c.Takes b parties parties' e →
      P parties → P parties') {n m : Nat} (h : P (run.parties n)) (hn : n ≤ m) :
    P (run.parties m) := by
  induction hn
  case refl          => exact h
  case step m _ hrest => exact hs (hf.parties m) (hf.steps m) hrest

theorem Inevitable.eventually (h : c.Inevitable b g i o) (hf : c.Fair b run) {n : Nat}
    (hi : (run.events n).party = i) (ho : o ∈ (run.events n).out) :
    ∃ m ≥ n, (∃ j, g.state j (run.parties (m + 1) j)) ∨
      ∃ o ∈ (run.events m).out, g.output (run.events m).party o := by
  induction h generalizing n
  case reached h => exact ⟨n, Nat.le_refl n, .inr ⟨_, ho, hi ▸ h⟩⟩
  case handled i j o R delivers _ hrest =>
    subst hi
    obtain ⟨input, hcar, _⟩ := delivers.input (hf.parties n)
    obtain ⟨m, hm, hj, hc⟩ := hf.delivers n o ho j ⟨input, hcar⟩
    subst hj
    obtain ⟨hin, state, hs, hrun⟩ := hf.steps m
    rcases delivers.leads (hf.parties m) hc hin hs with hg | ⟨o', ho', hr⟩
    case inl =>
      refine ⟨m, Nat.le_of_lt hm, .inl ⟨(run.events m).party, ?_⟩⟩
      rwa [hrun, Function.update_self]
    case inr =>
      obtain ⟨k, hk, hg⟩ := hrest o' hr rfl ho'
      exact ⟨k, Nat.le_trans (Nat.le_of_lt hm) hk, hg⟩

-- A run in which everything is delivered at once.
theorem fair_of_stages {σ : Type*} {parties : σ → ι → S} {event : σ → Event ι I O} {next : σ → σ}
    (ha : ∀ t, b.parties (parties t))
    (ht : ∀ t, c.Takes b (parties t) (parties (next t)) (event t))
    (hd : ∀ t, ∀ o ∈ (event t).out, ∀ j, (∃ input, c.carries (event t).party o j input) →
      (event (next t)).party = j ∧ c.carries (event t).party o j (event (next t)).input) (t : σ) :
    c.Fair b ⟨fun n => parties (next^[n] t), fun n => event (next^[n] t)⟩ where
  parties n          := ha _
  steps n            := by
    dsimp only
    rw [Function.iterate_succ_apply']
    exact ht _
  delivers n o ho j hc := by
    refine ⟨n + 1, Nat.lt_succ_self n, ?_⟩
    dsimp only
    rw [Function.iterate_succ_apply']
    exact hd _ o ho j hc

end Liveness

end Cluster
