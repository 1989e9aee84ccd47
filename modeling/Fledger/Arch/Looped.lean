import Fledger.Arch.Processing

namespace Processing

open Forwarding (Destination InternMessage Sent Translator)

variable {B : Type*} {In Out : B → Type*} {b : B}

namespace Intern

variable {i : Intern In Out b} {index : Nat} {ss : Subsystem In Out b}

-- Nobody listens to the messages which have been here before.
structure Unheard (i : Intern In Out b) : Prop where
  msgQueueIn  : ∀ m ∈ i.msgQueueIn, i.id ∈ m.1.trail → ∀ index ss,
    i.subsystems.lookup index = some ss → ss.isHandler = false ∧ (ss.tapsIn → ss.isClosed)
  msgQueueOut : ∀ m ∈ i.msgQueueOut, i.id ∈ m.1.trail → ∀ index ss,
    i.subsystems.lookup index = some ss → ss.tapsOut → ss.isClosed

theorem mem_deliveries {d : Delivery In Out b} {ds : List (Delivery In Out b)} (h : d ∈ ds) :
    d.msg ∈ received d.index ds :=
  List.mem_map_of_mem <| List.mem_filter.mpr ⟨h, decide_eq_true rfl⟩

theorem exists_delivery {ds : List (Delivery In Out b)} {msg : InternMessage In Out b}
    (h : msg ∈ received index ds) : ∃ d ∈ ds, d.msg = msg := by
  obtain ⟨d, hd, rfl⟩ := List.mem_map.mp h
  exact ⟨d, (List.mem_filter.mp hd).left, rfl⟩

theorem forwarded_of_mem_trail {dst : Destination} {id : BrokerID} (h : id ∈ dst.trail) :
    dst ≠ .noTap ∧ ∀ index, dst ≠ .handled index := by
  cases dst
  case forwarded => simp
  all_goals cases h

-- A message which has been here before only shows up at a tap or at a handler.
theorem mem_deliveriesFor_in {dst : Destination} {msg : In b} (ht : i.id ∈ dst.trail) :
    .messageIn dst msg ∈ i.deliveriesFor index ss ↔
      (dst, msg) ∈ i.msgQueueIn ∧ (ss.isHandler ∨ ss.tapsIn ∧ ¬ss.isClosed) := by
  have ⟨hn, hh⟩ := forwarded_of_mem_trail ht
  cases ss
  all_goals
    simp [deliveriesFor, handlerMsgs, inMessages, outMessages, Subsystem.isHandler,
      Subsystem.tapsIn, Subsystem.isClosed, hn, hh, ht]
  all_goals exact and_comm

theorem mem_deliveriesFor_out {dst : Destination} {msg : Out b} (ht : i.id ∈ dst.trail) :
    .messageOut dst msg ∈ i.deliveriesFor index ss ↔
      (dst, msg) ∈ i.msgQueueOut ∧ ss.tapsOut ∧ ¬ss.isClosed := by
  have ⟨hn, _⟩ := forwarded_of_mem_trail ht
  cases ss
  all_goals
    simp [deliveriesFor, handlerMsgs, inMessages, outMessages, Subsystem.tapsOut,
      Subsystem.isClosed, hn, ht]
  all_goals exact and_comm

theorem unheard_iff :
    i.Unheard ↔ ∀ index ss, i.subsystems.lookup index = some ss →
      ∀ msg ∈ i.deliveriesFor index ss, i.id ∉ msg.dst.trail := by
  constructor
  case mp =>
    intro h index ss hl msg hm ht
    cases msg
    case messageIn dst msg =>
      have ⟨hq, hs⟩ := mem_deliveriesFor_in ht |>.mp hm
      have ⟨hh, hi⟩ := h.msgQueueIn _ hq ht index ss hl
      cases hs
      case inl hs => exact Bool.false_ne_true <| hh.symm.trans hs
      case inr hs => exact hs.right (hi hs.left)
    case messageOut dst msg =>
      have ⟨hq, hs, hc⟩ := mem_deliveriesFor_out ht |>.mp hm
      exact hc <| h.msgQueueOut _ hq ht index ss hl hs
  case mpr =>
    intro h
    constructor
    case msgQueueIn =>
      intro m hm ht index ss hl
      have hn (hs : ss.isHandler ∨ ss.tapsIn ∧ ¬ss.isClosed) : False :=
        h index ss hl (.messageIn m.1 m.2) (mem_deliveriesFor_in ht |>.mpr ⟨hm, hs⟩) ht
      refine ⟨Bool.eq_false_iff.mpr fun hh => hn (.inl hh), fun hi => ?_⟩
      by_contra hc
      exact hn (.inr ⟨hi, hc⟩)
    case msgQueueOut =>
      intro m hm ht index ss hl hs
      by_contra hc
      exact h index ss hl (.messageOut m.1 m.2) (mem_deliveriesFor_out ht |>.mpr ⟨hm, hs, hc⟩) ht

theorem not_looped_iff_unheard :
    (∀ d ∈ i.processOnce.2.2, i.id ∉ d.msg.dst.trail) ↔ i.Unheard := by
  rw [unheard_iff]
  constructor
  case mp =>
    intro h index ss hl msg hm
    rw [← Option.elim_some [] (i.deliveriesFor index), ← hl, ← received_processOnce] at hm
    obtain ⟨d, hd, rfl⟩ := exists_delivery hm
    exact h d hd
  case mpr =>
    intro h d hd
    have hm := mem_deliveries hd
    rw [received_processOnce] at hm
    cases hl : i.subsystems.lookup d.index <;> rw [hl] at hm
    case none => cases hm
    case some => exact h _ _ hl _ hm

end Intern

-- A message of a client, a change of the subsystems, or a turn of the loop of a broker.
inductive Turn (In Out : B → Type*)
  | emit (m : Sent In Out)
  | subsystemAction (b : B) (action : SubsystemAction In Out b)
  | close (b : B) (index : Nat)
  | getMsg (b : B)
  | processOnce (b : B)

abbrev Brokers (In Out : B → Type*) :=
  (b : B) → Intern In Out b

variable [DecidableEq B]

namespace Brokers

def send (s : Brokers In Out) (m : Sent In Out) : Brokers In Out :=
  Function.update s m.1 { s m.1 with mainRx := (s m.1).mainRx ++ [m.2] }

-- The next state. The brokers come with their subsystems, which only change between two messages.
def step (s : Brokers In Out) : Turn In Out → Option (Brokers In Out)
  | .emit m                   => some (s.send m)
  | .subsystemAction b action =>
    if (s b).idle then some (Function.update s b ((s b).subsystemAction action)) else none
  | .close b index            =>
    some <| Function.update s b
      { s b with subsystems := HashMap.modify (s b).subsystems index Subsystem.close }
  | .getMsg b                 =>
    match (s b).idle, (s b).mainRx with
    | true, msg :: mainRx => some (Function.update s b <| { s b with mainRx }.getMsg msg)
    | _, _                => none
  | .processOnce b            =>
    if (s b).idle then none
    else
      let (i, sent, _) := (s b).processOnce
      some (sent.foldl send (Function.update s b i))

-- The broker which processes its messages.
def round (s : Brokers In Out) : Turn In Out → List ((b : B) × Intern In Out b)
  | .processOnce b => [⟨b, s b⟩]
  | _              => []

-- All runs, with their turns and the brokers which have processed their messages (the last one
-- first).
inductive Runs (s : Brokers In Out) :
    List (Turn In Out) → Brokers In Out → List ((b : B) × Intern In Out b) → Prop
  | start : Runs s [] s []
  | step {turns turn s₁ s₂ rounds} :
    Runs s turns s₁ rounds → s₁.step turn = some s₂ →
      Runs s (turn :: turns) s₂ (s₁.round turn ++ rounds)

variable {s s₁ s₂ : Brokers In Out} {turn : Turn In Out} {turns : List (Turn In Out)}
  {rounds : List ((b : B) × Intern In Out b)}

theorem id_update {i : Intern In Out b} (h : i.id = (s b).id) (a : B) :
    (Function.update s b i a).id = (s a).id := by
  by_cases ha : a = b
  case pos =>
    cases ha
    rw [Function.update_self, h]
  case neg => rw [Function.update_of_ne ha]

theorem id_foldl_send (sent : List (Sent In Out)) (s : Brokers In Out) (a : B) :
    (sent.foldl send s a).id = (s a).id := by
  induction sent generalizing s
  case nil            => rfl
  case cons m sent hi => exact (hi (s.send m)).trans (id_update (by rfl) a)

theorem id_step (h : s₁.step turn = some s₂) (a : B) : (s₂ a).id = (s₁ a).id := by
  cases turn
  case emit m =>
    cases h
    exact id_update (by rfl) a
  case close b index =>
    cases h
    exact id_update (by rfl) a
  case subsystemAction b action =>
    rw [step] at h
    split at h
    case isTrue =>
      cases h
      exact id_update (by cases action <;> rfl) a
    case isFalse => cases h
  case getMsg b =>
    rw [step] at h
    split at h
    case h_1 msg _ _ _ =>
      cases h
      exact id_update (by cases msg <;> rfl) a
    case h_2 => cases h
  case processOnce b =>
    rw [step] at h
    split at h
    case isTrue  => cases h
    case isFalse =>
      cases h
      exact (id_foldl_send _ _ a).trans (id_update Intern.id_processOnce a)

theorem Runs.id (h : s.Runs turns s₁ rounds) :
    (∀ a, (s₁ a).id = (s a).id) ∧ ∀ r ∈ rounds, r.2.id = (s r.1).id := by
  induction h
  case start => exact ⟨fun _ => rfl, fun _ h => by cases h⟩
  case step turns turn s₁ s₂ rounds hr hs hi =>
    refine ⟨fun a => (id_step hs a).trans (hi.left a), fun r hm => ?_⟩
    cases List.mem_append.mp hm
    case inr hm => exact hi.right r hm
    case inl hm =>
      cases turn
      case processOnce =>
        cases List.mem_singleton.mp hm
        exact hi.left _
      all_goals cases hm

-- In all rounds, nothing reaches a subsystem of a broker which it has handled already, if and only
-- if there is nobody to hear it.
theorem Runs.dropped_iff (h : s.Runs turns s₁ rounds) :
    (∀ r ∈ rounds, ∀ d ∈ r.2.processOnce.2.2, (s r.1).id ∉ d.msg.dst.trail) ↔
      ∀ r ∈ rounds, r.2.Unheard := by
  refine forall₂_congr fun r hr => ?_
  rw [← Intern.not_looped_iff_unheard, h.id.right r hr]

end Brokers

section Concrete

open Forwarding (ringTranslator)

-- The ring, with a tap for what comes out of the first broker.
def tappedRing : Brokers (fun _ : Bool => Nat) (fun _ => Nat) := fun b =>
  { mainRx      := []
    subsystems  := ((∅ : HashMap Nat _).insert 2 (.tapOut ⟨false⟩)).insert 1 <|
      .translator (ringTranslator b)
    msgQueueIn  := []
    msgQueueOut := []
    id          := U256.ofPrefix [if b then 1 else 0] }

def tappedRingTurns : List (Turn (fun _ : Bool => Nat) (fun _ => Nat)) :=
  [.processOnce false, .getMsg false, .processOnce true, .getMsg true, .processOnce false,
    .getMsg false, .emit ⟨false, .messageOut .all 7⟩]

-- The tap gets the message again when it comes back.
theorem not_dropped :
    ∃ s i₁ i₂ i₃, tappedRing.Runs tappedRingTurns s [⟨false, i₃⟩, ⟨true, i₂⟩, ⟨false, i₁⟩] ∧
      received 2 i₁.processOnce.2.2 = [.messageOut .all 7] ∧
      ∃ dst, received 2 i₃.processOnce.2.2 = [.messageOut dst 7] ∧
        (tappedRing false).id ∈ dst.trail := by
  have h : tappedRing.Runs tappedRingTurns _ _ :=
    .step (.step (.step (.step (.step (.step (.step .start rfl) rfl) rfl) rfl) rfl) rfl) rfl
  exact ⟨_, _, _, _, h, rfl, .forwarded [(tappedRing false).id, (tappedRing true).id], rfl,
    .head _⟩

theorem dropped_tappedRing :
    ∃ s rounds, tappedRing.Runs tappedRingTurns s rounds ∧ rounds.length = 3 ∧
      ((∀ r ∈ rounds, ∀ d ∈ r.2.processOnce.2.2, (tappedRing r.1).id ∉ d.msg.dst.trail) ↔
        ∀ r ∈ rounds, r.2.Unheard) := by
  have h : tappedRing.Runs tappedRingTurns _ _ :=
    .step (.step (.step (.step (.step (.step (.step .start rfl) rfl) rfl) rfl) rfl) rfl) rfl
  exact ⟨_, _, h, rfl, Brokers.Runs.dropped_iff h⟩

end Concrete

end Processing
