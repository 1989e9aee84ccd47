import Mathlib.Logic.Function.Basic
import Mathlib.Logic.Relation
import Fledger.Arch.Nodeids
import Fledger.Lib.HashMap

abbrev BrokerID := U256

-- Taps and handlers have nothing to settle.
inductive Subsystem
  | tap
  | handler
  | translator (broker : BrokerID)

inductive SubsystemAction
  | add (n : Nat) (ss : Subsystem)
  | remove (n : Nat)

-- Who holds the other end of the channel for the reply.
inductive Caller
  | client
  | broker (id : BrokerID)
deriving DecidableEq

-- The content of the messages between the modules is left out.
inductive InternMessage
  | subsystem (action : SubsystemAction)
  | message
  | settle (callers : List BrokerID) (reply : Caller)

-- A `Settle` of another broker.
def InternMessage.asked : InternMessage → Option (List BrokerID × BrokerID)
  | .settle callers (.broker a) => some (callers, a)
  | _                           => none

-- A broker in the middle of `InternMessage::Settle`: its list of callers, the brokers of the
-- translators which are still to be settled, and the broker whose reply it waits for.
structure Settling where
  list  : List BrokerID
  rest  : List BrokerID
  waits : Option BrokerID
  reply : Caller

structure Intern where
  mainRx     : List InternMessage
  subsystems : HashMap Nat Subsystem
  settling   : Option Settling

namespace Intern

def new : Intern :=
  { mainRx := [], subsystems := ∅, settling := none }

def subsystemAction (i : Intern) : SubsystemAction → Intern
  | .add n ss => { i with subsystems := i.subsystems.insert n ss }
  | .remove n => { i with subsystems := i.subsystems.erase n }

-- The brokers of the translators.
def translators (i : Intern) : List BrokerID :=
  (HashMap.values i.subsystems).filterMap fun
    | .translator broker => some broker
    | _                  => none

end Intern

-- A call by a client, or a turn of the loop of a broker: it takes the next message, or it goes on
-- with the `Settle` it has taken. The subsystems are iterated in some order, and what the
-- translators and handlers make of a message are messages to any brokers.
inductive Turn
  | emit (b : BrokerID)
  | subsystem (b : BrokerID) (action : SubsystemAction)
  | settle (b : BrokerID) (callers : List BrokerID)
  | getMsg (b : BrokerID) (order : (bs : List BrokerID) → { bs' : List BrokerID // bs'.Perm bs })
    (emitted : List BrokerID)
  | settleNext (b : BrokerID)

abbrev Brokers := BrokerID → Intern

namespace Brokers

def new : Brokers :=
  fun _ => .new

def send (s : Brokers) (b : BrokerID) (msg : InternMessage) : Brokers :=
  Function.update s b { s b with mainRx := (s b).mainRx ++ [msg] }

def setMainRx (s : Brokers) (b : BrokerID) (mainRx : List InternMessage) : Brokers :=
  Function.update s b { s b with mainRx }

def setSettling (s : Brokers) (b : BrokerID) (settling : Option Settling) : Brokers :=
  Function.update s b { s b with settling }

-- The reply lets the broker go on which waits for it.
def sendReply (s : Brokers) : Caller → Brokers
  | .client   => s
  | .broker a => s.setSettling a <| (s a).settling.map ({ · with waits := none })

-- The body of `get_msg`, for a broker which has taken a message.
def handle (s : Brokers) (b : BrokerID)
    (order : (bs : List BrokerID) → { bs' : List BrokerID // bs'.Perm bs })
    (emitted : List BrokerID) : InternMessage → Brokers
  | .subsystem action     => Function.update s b ((s b).subsystemAction action)
  | .message              => emitted.foldl (send · · .message) s
  | .settle callers reply =>
    if b ∈ callers then s.sendReply reply
    else s.setSettling b <| some
      { list := callers ++ [b], rest := order (s b).translators, waits := none, reply }

-- The loop over the subsystems, with `Translator::settle`.
def settleNext (s : Brokers) (b : BrokerID) (settling : Settling) : Brokers :=
  match settling.rest with
  | []        => (s.setSettling b none).sendReply settling.reply
  | t :: rest =>
    if t ∈ settling.list then s.setSettling b <| some { settling with rest }
    else
      (s.setSettling b <| some { settling with rest, waits := some t }).send t
        (.settle settling.list (.broker b))

def step (s : Brokers) : Turn → Option Brokers
  | .emit b                 => s.send b .message
  | .subsystem b action     => s.send b (.subsystem action)
  | .settle b callers       => s.send b (.settle callers .client)
  | .getMsg b order emitted =>
    match (s b).settling, (s b).mainRx with
    | none, msg :: mainRx =>
      (s.setMainRx b mainRx).handle b order emitted msg
    | _, _                => none
  | .settleNext b           =>
    match (s b).settling with
    | some settling => if settling.waits = none then s.settleNext b settling else none
    | none          => none

inductive Runs (allowed : Brokers → Turn → Prop) : Brokers → Prop
  | new : Runs allowed .new
  | step {s s' : Brokers} {turn : Turn} :
    Runs allowed s → allowed s turn → s.step turn = some s' → Runs allowed s'

-- The broker is blocked in its loop, and waits for the reply of the other one.
def WaitsFor (s : Brokers) (a b : BrokerID) : Prop :=
  ∃ settling, (s a).settling = some settling ∧ settling.waits = some b

def Deadlocked (s : Brokers) : Prop :=
  ∃ b, Relation.TransGen s.WaitsFor b b

-- Translators are only installed within a net of brokers. A broker takes a `Settle` of a client
-- only if no broker of its net is settling.
def Lone {N : Type*} (net : BrokerID → N) (s : Brokers) : Turn → Prop
  | .subsystem b (.add _ (.translator t)) => net t = net b
  | .getMsg b _ _                         =>
    ∀ callers, (s b).mainRx.head? = some (.settle callers .client) → b ∉ callers →
      ∀ a, net a = net b → (s a).settling = none
  | _                                     => True

section

variable {s s' : Brokers} {a b c t : BrokerID} {msg : InternMessage} {msgs : List InternMessage}
  {σ τ : Settling}

-- What other brokers have asked a broker for.
def pending (s : Brokers) (b : BrokerID) : List (List BrokerID × BrokerID) :=
  (s b).mainRx.filterMap InternMessage.asked

@[simp]
theorem settling_send : (s.send b msg c).settling = (s c).settling := by
  by_cases h : c = b <;> simp [send, h]

@[simp]
theorem settling_setMainRx : (s.setMainRx b msgs c).settling = (s c).settling := by
  by_cases h : c = b <;> simp [setMainRx, h]

@[simp]
theorem settling_setSettling {x : Option Settling} :
    (s.setSettling b x c).settling = if c = b then x else (s c).settling := by
  by_cases h : c = b <;> simp [setSettling, h]

@[simp]
theorem subsystems_send : (s.send b msg c).subsystems = (s c).subsystems := by
  by_cases h : c = b <;> simp [send, h]

@[simp]
theorem subsystems_setMainRx : (s.setMainRx b msgs c).subsystems = (s c).subsystems := by
  by_cases h : c = b <;> simp [setMainRx, h]

@[simp]
theorem subsystems_setSettling {x : Option Settling} :
    (s.setSettling b x c).subsystems = (s c).subsystems := by
  by_cases h : c = b <;> simp [setSettling, h]

@[simp]
theorem mainRx_send : (s.send b msg c).mainRx = (s c).mainRx ++ if c = b then [msg] else [] := by
  by_cases h : c = b <;> simp [send, h]

@[simp]
theorem mainRx_setMainRx : (s.setMainRx b msgs c).mainRx = if c = b then msgs else (s c).mainRx := by
  by_cases h : c = b <;> simp [setMainRx, h]

@[simp]
theorem mainRx_setSettling {x : Option Settling} :
    (s.setSettling b x c).mainRx = (s c).mainRx := by
  by_cases h : c = b <;> simp [setSettling, h]

@[simp]
theorem pending_send :
    (s.send b msg).pending c = s.pending c ++ if c = b then msg.asked.toList else [] := by
  rw [pending, mainRx_send, List.filterMap_append]
  split
  case isFalse => rfl
  case isTrue  => cases hm : msg.asked <;> simp [pending, hm]

@[simp]
theorem pending_setSettling {x : Option Settling} :
    (s.setSettling b x).pending c = s.pending c := by
  simp [pending]

@[simp]
theorem pending_sendReply {reply : Caller} : (s.sendReply reply).pending c = s.pending c := by
  cases reply <;> simp [sendReply]

theorem pending_eq_of_mainRx (hq : (s b).mainRx = msg :: msgs) :
    s.pending b = msg.asked.toList ++ (s.setMainRx b msgs).pending b := by
  cases hm : msg.asked <;> simp [pending, hq, hm]

theorem pending_setMainRx_of_ne (hc : c ≠ b) : (s.setMainRx b msgs).pending c = s.pending c := by
  simp [pending, hc]

-- The settling brokers of a net, from the last one which was asked to the one which a client asked:
-- each was asked by the next one, which waits for it.
def Under (s : Brokers) (σ : Settling) (b : BrokerID) : List BrokerID → Prop
  | []      => σ.reply = .client ∧ b ∈ σ.list
  | a :: as => σ.reply = .broker a ∧ ∃ τ, (s a).settling = some τ ∧ σ.list = τ.list ++ [b] ∧
    τ.waits = some b ∧ Under s τ a as

theorem Under.congr {as : List BrokerID} (h : Under s σ b as)
    (hs : ∀ a ∈ as, (s' a).settling = (s a).settling) (hl : τ.list = σ.list)
    (hr : τ.reply = σ.reply) : Under s' τ b as := by
  induction as generalizing b σ τ
  case nil => exact ⟨hr.trans h.left, hl ▸ h.right⟩
  case cons a as hi =>
    obtain ⟨hreply, υ, hu, hlist, hw, hunder⟩ := h
    refine ⟨hr.trans hreply, υ, ?_, hl.trans hlist, hw, ?_⟩
    · exact (hs a List.mem_cons_self).trans hu
    · exact hi hunder (fun a ha => hs a <| List.mem_cons_of_mem _ ha) rfl rfl

-- All but the first one wait for a broker which they asked.
theorem Under.waits {as : List BrokerID} (h : Under s σ b as) (hb : (s b).settling = some σ) :
    ∀ c ∈ as, ∃ υ d τ, (s c).settling = some υ ∧ υ.waits = some d ∧ (s d).settling = some τ ∧
      τ.list = υ.list ++ [d] := by
  induction as generalizing b σ
  case nil => simp
  case cons a as hi =>
    obtain ⟨-, τ, ht, hl, hw, hunder⟩ := h
    intro c hc
    rcases List.mem_cons.mp hc with rfl | hc
    · exact ⟨τ, b, σ, ht, hw, hb, hl⟩
    · exact hi hunder ht c hc

-- The list of callers contains all of them.
theorem Under.subset {as : List BrokerID} (h : Under s σ b as) : ∀ c ∈ b :: as, c ∈ σ.list := by
  induction as generalizing b σ
  case nil => simpa using h.right
  case cons a as hi =>
    obtain ⟨-, τ, -, hlist, -, hunder⟩ := h
    intro c hc
    rw [hlist]
    rcases List.mem_cons.mp hc with rfl | hc
    · exact List.mem_append_right _ (List.mem_singleton_self _)
    · exact List.mem_append_left _ (hi hunder c hc)

variable {N : Type*} {net : BrokerID → N} {k : N} {as : List BrokerID}

-- The settling brokers of a net are on one stack, of which only the first one has asked another
-- broker that is not settling.
structure Stacked (net : BrokerID → N) (s : Brokers) (k : N) (b : BrokerID) (as : List BrokerID)
    (σ : Settling) : Prop where
  top     : (s b).settling = some σ
  under   : Under s σ b as
  nodup   : (b :: as).Nodup
  mem     : ∀ c, c ∈ b :: as ↔ net c = k ∧ (s c).settling ≠ none
  pending : ∀ c, net c = k → s.pending c = if σ.waits = some c then [(σ.list, b)] else []
  asks    : ∀ t, σ.waits = some t → net t = k ∧ t ∉ σ.list

-- In each net, no broker is settling, or those which are settling are on one stack.
inductive Orderly (net : BrokerID → N) (s : Brokers) (k : N) : Prop
  | idle (settling : ∀ c, net c = k → (s c).settling = none)
    (pending : ∀ c, net c = k → s.pending c = [])
  | stacked (b : BrokerID) (as : List BrokerID) (σ : Settling) (stacked : Stacked net s k b as σ)

theorem Orderly.congr (h : Orderly net s k) (hs : ∀ c, net c = k → (s' c).settling = (s c).settling)
    (hp : ∀ c, net c = k → s'.pending c = s.pending c) : Orderly net s' k := by
  cases h
  case idle settling pending =>
    exact .idle (fun c hc => (hs c hc).trans (settling c hc))
      fun c hc => (hp c hc).trans (pending c hc)
  case stacked b as σ h =>
    have hb := (h.mem b).mp List.mem_cons_self
    have hsame : ∀ c ∈ b :: as, (s' c).settling = (s c).settling := fun c hc =>
      hs c ((h.mem c).mp hc).left
    refine .stacked b as σ ⟨(hs b hb.left).trans h.top, ?_, h.nodup, fun c => ?_, ?_, h.asks⟩
    · exact h.under.congr (fun a ha => hsame a <| List.mem_cons_of_mem _ ha) rfl rfl
    · rw [h.mem c]
      exact and_congr_right fun hc => by rw [hs c hc]
    · exact fun c hc => (hp c hc).trans (h.pending c hc)

-- What happens to the brokers of another net is of no matter.
section OtherNet

theorem Orderly.setSettling_of_ne {x : Option Settling} (h : Orderly net s k) (hk : net b ≠ k) :
    Orderly net (s.setSettling b x) k := by
  refine h.congr (fun c hc => ?_) fun c _ => pending_setSettling
  rw [settling_setSettling, if_neg fun he : c = b => hk (he ▸ hc)]

theorem Orderly.setMainRx_of_ne (h : Orderly net s k) (hk : net b ≠ k) :
    Orderly net (s.setMainRx b msgs) k :=
  h.congr (fun _ _ => settling_setMainRx) fun _ hc =>
    pending_setMainRx_of_ne fun he => hk (he ▸ hc)

theorem Orderly.send_of_ne (h : Orderly net s k) (hk : net b ≠ k) :
    Orderly net (s.send b msg) k := by
  refine h.congr (fun _ _ => settling_send) fun c hc => ?_
  rw [pending_send, if_neg fun he : c = b => hk (he ▸ hc), List.append_nil]

theorem Orderly.sendReply_of_ne {reply : Caller} (h : Orderly net s k)
    (hk : ∀ a, reply = .broker a → net a ≠ k) : Orderly net (s.sendReply reply) k := by
  cases reply
  case client   => exact h
  case broker a => exact h.setSettling_of_ne (hk a rfl)

end OtherNet

-- A client asks a broker of a net in which no broker is settling.
theorem Orderly.start (hk : net b = k) (hi : ∀ c, net c = k → (s c).settling = none)
    (hp : ∀ c, net c = k → s.pending c = []) (hw : σ.waits = none) (hr : σ.reply = .client)
    (hl : b ∈ σ.list) : Orderly net (s.setSettling b (some σ)) k := by
  refine .stacked b [] σ ⟨by simp, ⟨hr, hl⟩, List.nodup_singleton b, fun c => ?_, ?_, ?_⟩
  · by_cases hc : c = b
    · simp [hc, hk]
    · simpa [hc] using hi c
  · simpa [hw] using hp
  · simp [hw]

-- A broker takes the `Settle` of the one on top of the stack.
theorem Stacked.enter (h : Stacked net s k a as τ) (hk : net b = k) (hw : τ.waits = some b)
    (hs : ∀ c, (s' c).settling = if c = b then some σ else (s c).settling)
    (hp : ∀ c, s'.pending c = if c = b then [] else s.pending c) (hn : σ.waits = none)
    (hr : σ.reply = .broker a) (hl : σ.list = τ.list ++ [b]) : Stacked net s' k b (a :: as) σ := by
  have hfresh : b ∉ a :: as := fun hm => (h.asks b hw).right <| h.under.subset b hm
  have hsame : ∀ c ∈ a :: as, (s' c).settling = (s c).settling := by
    intro c hc
    rw [hs, if_neg fun he : c = b => hfresh (he ▸ hc)]
  constructor
  case top   => simp [hs]
  case nodup => exact List.nodup_cons.mpr ⟨hfresh, h.nodup⟩
  case asks  => simp [hn]
  case under =>
    refine ⟨hr, τ, (hsame a List.mem_cons_self).trans h.top, hl, hw, ?_⟩
    exact h.under.congr (fun c hc => hsame c <| List.mem_cons_of_mem _ hc) rfl rfl
  case mem =>
    intro c
    rw [List.mem_cons, h.mem c, hs]
    by_cases hc : c = b
    · simp [hc, hk]
    · simp [hc]
  case pending =>
    intro c hc
    rw [hp, h.pending c hc, hw, hn]
    by_cases hcb : c = b
    · simp [hcb]
    · simp [hcb, Ne.symm hcb]

-- The one on top of the stack goes on to its next translator.
theorem Stacked.change (h : Stacked net s k b as σ)
    (hs : ∀ c, (s' c).settling = if c = b then some τ else (s c).settling) (hl : τ.list = σ.list)
    (hr : τ.reply = σ.reply)
    (hp : ∀ c, net c = k → s'.pending c = if τ.waits = some c then [(σ.list, b)] else [])
    (ha : ∀ t, τ.waits = some t → net t = k ∧ t ∉ σ.list) : Stacked net s' k b as τ := by
  have hnot := (List.nodup_cons.mp h.nodup).left
  constructor
  case top     => simp [hs]
  case nodup   => exact h.nodup
  case asks    => simpa [hl] using ha
  case pending => simpa [hl] using hp
  case under =>
    refine h.under.congr (fun c hc => ?_) hl hr
    rw [hs, if_neg fun he : c = b => hnot (he ▸ hc)]
  case mem =>
    intro c
    rw [h.mem c, hs]
    by_cases hc : c = b
    · simp [hc, h.top]
    · simp [hc]

-- The one on top of the stack has settled, and sends its reply.
theorem Stacked.leave (h : Stacked net s k b as σ) (hw : σ.waits = none) :
    Orderly net ((s.setSettling b none).sendReply σ.reply) k := by
  have hpend : ∀ c, net c = k → s.pending c = [] := by simpa [hw] using h.pending
  have hnot := (List.nodup_cons.mp h.nodup).left
  cases as
  case nil =>
    obtain ⟨hr, -⟩ := h.under
    rw [hr]
    refine .idle (fun c hc => ?_) (by simpa using hpend)
    by_contra hn
    have hcb : c ≠ b := fun he => hn <| by simp [sendReply, he]
    have hm := (h.mem c).mpr ⟨hc, by simpa [sendReply, hcb] using hn⟩
    exact hcb <| List.mem_singleton.mp hm
  case cons a as =>
    obtain ⟨hr, τ, ht, -, -, hunder⟩ := h.under
    have hab : a ≠ b := fun he => hnot (he ▸ List.mem_cons_self)
    rw [hr]
    have hs : ∀ c, (((s.setSettling b none).sendReply (.broker a)) c).settling =
        if c = a then some { τ with waits := none } else if c = b then none else (s c).settling := by
      intro c
      simp [sendReply, hab, ht]
    refine .stacked a as { τ with waits := none } ⟨by simp [hs], ?_, ?_, fun c => ?_, ?_, by simp⟩
    · refine hunder.congr (fun c hc => ?_) rfl rfl
      have hca : c ≠ a := fun he => (List.nodup_cons.mp (List.nodup_cons.mp h.nodup).right).left
        (he ▸ hc)
      have hcb : c ≠ b := fun he => hnot (he ▸ List.mem_cons_of_mem _ hc)
      simp [hs, hca, hcb]
    · exact (List.nodup_cons.mp h.nodup).right
    · have hm := h.mem c
      rw [hs]
      by_cases hca : c = a
      · simpa [hca, ht] using (h.mem a).mp (by simp)
      · by_cases hcb : c = b
        · simpa [hcb, hab.symm] using fun hc => hnot (List.mem_cons_of_mem _ hc)
        · simpa [hca, hcb] using hm
    · simpa using hpend

-- The brokers which were asked are in the net of the one which asks.
structure Inside (net : BrokerID → N) (s : Brokers) : Prop where
  queued    : ∀ b n t, .subsystem (.add n (.translator t)) ∈ (s b).mainRx → net t = net b
  installed : ∀ b n t, (s b).subsystems.lookup n = some (.translator t) → net t = net b
  rest      : ∀ b σ, (s b).settling = some σ → ∀ t ∈ σ.rest, net t = net b

theorem Inside.send (h : Inside net s)
    (hm : ∀ n t, msg = .subsystem (.add n (.translator t)) → net t = net b) :
    Inside net (s.send b msg) where
  installed c n t ht := h.installed c n t (by simpa using ht)
  rest c σ hσ        := h.rest c σ (by simpa using hσ)
  queued c n t hq    := by
    rw [mainRx_send, List.mem_append] at hq
    rcases hq with hq | hq
    case inl => exact h.queued c n t hq
    case inr =>
      split at hq
      case isFalse   => exact absurd hq List.not_mem_nil
      case isTrue hc => exact hc ▸ hm n t (List.mem_singleton.mp hq).symm

theorem Inside.setMainRx (h : Inside net s) (hm : msgs ⊆ (s b).mainRx) :
    Inside net (s.setMainRx b msgs) where
  installed c n t ht := h.installed c n t (by simpa using ht)
  rest c σ hσ        := h.rest c σ (by simpa using hσ)
  queued c n t hq    := by
    rw [mainRx_setMainRx] at hq
    split at hq
    case isTrue hc => exact h.queued c n t (hc ▸ hm hq)
    case isFalse   => exact h.queued c n t hq

theorem Inside.setSettling {x : Option Settling} (h : Inside net s)
    (hx : ∀ σ, x = some σ → ∀ t ∈ σ.rest, net t = net b) : Inside net (s.setSettling b x) where
  queued c n t hq    := h.queued c n t (by simpa using hq)
  installed c n t ht := h.installed c n t (by simpa using ht)
  rest c σ hσ        := by
    rw [settling_setSettling] at hσ
    split at hσ
    case isTrue hc => exact hc ▸ hx σ hσ
    case isFalse   => exact h.rest c σ hσ

theorem Inside.sendReply (h : Inside net s) (reply : Caller) : Inside net (s.sendReply reply) := by
  cases reply
  case client   => exact h
  case broker a =>
    refine h.setSettling fun σ hσ => ?_
    obtain ⟨τ, ht, rfl⟩ := Option.map_eq_some_iff.mp hσ
    exact h.rest a τ ht

theorem Inside.subsystemAction {action : SubsystemAction} (h : Inside net s)
    (hm : ∀ n t, action = .add n (.translator t) → net t = net b) :
    Inside net (Function.update s b ((s b).subsystemAction action)) where
  queued c n t hq    := by
    by_cases hc : c = b
    · cases action <;> exact h.queued c n t (by simpa [hc, Intern.subsystemAction] using hq)
    · exact h.queued c n t (by simpa [hc] using hq)
  rest c σ hσ        := by
    by_cases hc : c = b
    · cases action <;> exact h.rest c σ (by simpa [hc, Intern.subsystemAction] using hσ)
    · exact h.rest c σ (by simpa [hc] using hσ)
  installed c n t ht := by
    by_cases hc : c = b
    case neg => exact h.installed c n t (by simpa [hc] using ht)
    case pos =>
      subst hc
      rw [Function.update_self] at ht
      cases action <;> simp only [Intern.subsystemAction] at ht
      case add m ss =>
        rw [HashMap.lookup_insert_eq] at ht
        split at ht
        case isTrue  => cases ht; exact hm m t rfl
        case isFalse => exact h.installed c n t ht
      case remove m =>
        rw [HashMap.lookup_erase_eq] at ht
        split at ht
        case isTrue  => cases ht
        case isFalse => exact h.installed c n t ht

theorem Inside.translators (h : Inside net s) : ∀ t ∈ (s b).translators, net t = net b := by
  intro t ht
  obtain ⟨ss, hm, he⟩ := List.mem_filterMap.mp ht
  obtain ⟨n, hn⟩ := HashMap.mem_values.mp hm
  cases ss <;> cases he
  exact h.installed b n t hn

-- All nets of brokers settle in good order.
structure Sound (net : BrokerID → N) (s : Brokers) : Prop where
  inside  : Inside net s
  orderly : ∀ k, Orderly net s k

theorem sound_new (net : BrokerID → N) : Sound net new where
  inside    := ⟨by simp [new, Intern.new], by simp [new, Intern.new], by simp [new, Intern.new]⟩
  orderly _ := .idle (fun _ _ => rfl) fun _ _ => rfl

theorem Sound.send (h : Sound net s) (ha : msg.asked = none)
    (hm : ∀ n t, msg = .subsystem (.add n (.translator t)) → net t = net b) :
    Sound net (s.send b msg) where
  inside    := h.inside.send hm
  orderly k := (h.orderly k).congr (fun c _ => settling_send) fun c _ => by simp [ha]

theorem Sound.emit (h : Sound net s) (emitted : List BrokerID) :
    Sound net (emitted.foldl (Brokers.send · · .message) s) := by
  induction emitted generalizing s
  case nil            => exact h
  case cons c rest hi => exact hi (h.send rfl nofun)

theorem Sound.subsystemAction {action : SubsystemAction} (h : Sound net s)
    (hm : ∀ n t, action = .add n (.translator t) → net t = net b) :
    Sound net (Function.update s b ((s b).subsystemAction action)) where
  inside    := h.inside.subsystemAction hm
  orderly k := by
    refine (h.orderly k).congr (fun c _ => ?_) fun c _ => ?_
    · by_cases hc : c = b
      · cases action <;> simp [hc, Intern.subsystemAction]
      · simp [hc]
    · by_cases hc : c = b
      · cases action <;> simp [pending, hc, Intern.subsystemAction]
      · simp [pending, hc]

-- A message which is no `Settle` of another broker is taken.
theorem Sound.take (h : Sound net s) (hq : (s b).mainRx = msg :: msgs) (ha : msg.asked = none) :
    Sound net (s.setMainRx b msgs) where
  inside    := h.inside.setMainRx (by simp [hq])
  orderly k := by
    refine (h.orderly k).congr (fun c _ => settling_setMainRx) fun c _ => ?_
    by_cases hc : c = b
    · simp [hc, pending_eq_of_mainRx hq, ha]
    · exact pending_setMainRx_of_ne hc

theorem Sound.start {σ : Settling} (h : Sound net s)
    (hi : ∀ a, net a = net b → (s a).settling = none) (hw : σ.waits = none)
    (hr : σ.reply = .client) (hl : b ∈ σ.list) (hrest : ∀ t ∈ σ.rest, net t = net b) :
    Sound net (s.setSettling b (some σ)) where
  inside    := h.inside.setSettling fun _ he => Option.some.inj he ▸ hrest
  orderly k := by
    by_cases hk : net b = k
    case neg => exact (h.orderly k).setSettling_of_ne hk
    case pos =>
      subst hk
      cases h.orderly (net b)
      case idle hp      => exact .start rfl hi hp hw hr hl
      case stacked hs   =>
        have hb := (hs.mem _).mp List.mem_cons_self
        exact absurd (hi _ hb.left) hb.right

theorem Sound.enter {callers : List BrokerID} (h : Sound net s)
    (hq : (s b).mainRx = .settle callers (.broker a) :: msgs) (hw : σ.waits = none)
    (hr : σ.reply = .broker a) (hl : σ.list = callers ++ [b]) (hrest : ∀ t ∈ σ.rest, net t = net b) :
    b ∉ callers ∧ Sound net ((s.setMainRx b msgs).setSettling b (some σ)) := by
  have hp := pending_eq_of_mainRx hq
  simp only [InternMessage.asked, Option.toList_some, List.singleton_append] at hp
  cases h.orderly (net b)
  case idle hpend => simp [hpend b rfl] at hp
  case stacked a' as τ hs =>
    rw [hs.pending b rfl] at hp
    split at hp
    case isFalse => cases hp
    case isTrue hwait =>
      simp only [List.cons.injEq, Prod.mk.injEq] at hp
      obtain ⟨⟨rfl, rfl⟩, hnil⟩ := hp
      refine ⟨(hs.asks b hwait).right, ?_, fun k => ?_⟩
      case refine_1 =>
        refine Inside.setSettling ?_ fun _ he => Option.some.inj he ▸ hrest
        exact h.inside.setMainRx (by simp [hq])
      case refine_2 =>
        by_cases hk : net b = k
        case neg => exact ((h.orderly k).setMainRx_of_ne hk).setSettling_of_ne hk
        case pos =>
          subst hk
          refine .stacked b _ σ (hs.enter rfl hwait (fun c => ?_) (fun c => ?_) hw hr hl)
          · simp
          · by_cases hc : c = b
            · simp [hc, hnil.symm]
            · simp [hc, pending_setMainRx_of_ne hc]

-- Of the settling brokers, only the one on top of a stack goes on.
theorem Orderly.stacked_of_settling (h : Orderly net s (net b)) (hb : (s b).settling = some σ)
    (hw : σ.waits = none) : ∃ as, Stacked net s (net b) b as σ := by
  cases h
  case idle settling _ => simp [settling b rfl] at hb
  case stacked a as τ hs =>
    rcases List.mem_cons.mp <| (hs.mem b).mpr ⟨rfl, by simp [hb]⟩ with rfl | hm
    · cases Option.some.inj (hb.symm.trans hs.top)
      exact ⟨as, hs⟩
    · obtain ⟨υ, d, _, hu, hd, _⟩ := hs.under.waits hs.top b hm
      cases Option.some.inj (hb.symm.trans hu)
      simp [hw] at hd

-- The broker at the top of the stack leaves it when it has settled all its translators.
theorem Sound.leave (h : Sound net s) (hb : (s b).settling = some σ) (hw : σ.waits = none) :
    Sound net ((s.setSettling b none).sendReply σ.reply) := by
  obtain ⟨as, hs⟩ := (h.orderly (net b)).stacked_of_settling hb hw
  refine ⟨(h.inside.setSettling (by simp)).sendReply _, fun k => ?_⟩
  by_cases hk : net b = k
  case pos => exact hk ▸ hs.leave hw
  case neg =>
    refine ((h.orderly k).setSettling_of_ne hk).sendReply_of_ne fun a hr => ?_
    -- The one which waits for the reply is the next one on the stack.
    cases as
    case nil => simp [hs.under.left] at hr
    case cons a' as =>
      cases hs.under.left.symm.trans hr
      exact ((hs.mem a).mp (by simp)).left ▸ hk

-- It skips a translator to a broker which called it.
theorem Sound.skip {rest : List BrokerID} (h : Sound net s) (hb : (s b).settling = some σ)
    (hw : σ.waits = none) (hrest : σ.rest = t :: rest) :
    Sound net (s.setSettling b <| some { σ with rest }) := by
  obtain ⟨as, hs⟩ := (h.orderly (net b)).stacked_of_settling hb hw
  have ht : ∀ u ∈ t :: rest, net u = net b := hrest ▸ h.inside.rest b σ hb
  refine ⟨h.inside.setSettling fun τ he => ?_, fun k => ?_⟩
  · cases he
    exact fun u hu => ht u (List.mem_cons_of_mem _ hu)
  · by_cases hk : net b = k
    case neg => exact (h.orderly k).setSettling_of_ne hk
    case pos =>
      subst hk
      refine .stacked b as _ <| hs.change (τ := { σ with rest }) (fun c => by simp) rfl rfl ?_ ?_
      · simpa [hw] using hs.pending
      · simp [hw]

-- It asks the broker of any other translator, and waits for its reply.
theorem Sound.ask {rest : List BrokerID} (h : Sound net s) (hb : (s b).settling = some σ)
    (hw : σ.waits = none) (hrest : σ.rest = t :: rest) (hlist : t ∉ σ.list) :
    Sound net ((s.setSettling b <| some { σ with rest, waits := some t }).send t
      (.settle σ.list (.broker b))) := by
  obtain ⟨as, hs⟩ := (h.orderly (net b)).stacked_of_settling hb hw
  have hpend : ∀ c, net c = net b → s.pending c = [] := by simpa [hw] using hs.pending
  have ht : ∀ u ∈ t :: rest, net u = net b := hrest ▸ h.inside.rest b σ hb
  refine ⟨(h.inside.setSettling fun τ he => ?_).send nofun, fun k => ?_⟩
  · cases he
    exact fun u hu => ht u (List.mem_cons_of_mem _ hu)
  · by_cases hk : net b = k
    case neg =>
      have hkt : net t ≠ k := ht t (by simp) ▸ hk
      exact ((h.orderly k).setSettling_of_ne hk).send_of_ne hkt
    case pos =>
      subst hk
      refine .stacked b as _ <| hs.change (τ := { σ with rest, waits := some t }) (fun c => by simp)
        rfl rfl (fun c hc => ?_) ?_
      · by_cases hct : c = t
        · simp [hct, hpend t (ht t (by simp)), InternMessage.asked]
        · simp [hct, Ne.symm hct, hpend c hc]
      · intro u hu
        cases hu
        exact ⟨ht t (by simp), hlist⟩

theorem Sound.settleNext (h : Sound net s) (hb : (s b).settling = some σ) (hw : σ.waits = none) :
    Sound net (s.settleNext b σ) := by
  unfold Brokers.settleNext
  split
  case h_1 => exact h.leave hb hw
  case h_2 t rest hrest =>
    split
    case isTrue        => exact h.skip hb hw hrest
    case isFalse hlist => exact h.ask hb hw hrest hlist

theorem Sound.step {turn : Turn} (h : Sound net s) (hl : s.Lone net turn)
    (hs : s.step turn = some s') : Sound net s' := by
  cases turn
  case emit b            => cases hs; exact h.send rfl nofun
  case settle b callers  => cases hs; exact h.send rfl nofun
  case subsystem b action =>
    cases hs
    refine h.send rfl fun n t he => ?_
    cases he
    exact hl
  case settleNext b =>
    cases hb : (s b).settling <;> simp only [Brokers.step, hb] at hs
    case none   => cases hs
    case some σ =>
      split at hs <;> cases hs
      exact h.settleNext hb ‹_›
  case getMsg b order emitted =>
    simp only [Brokers.step] at hs
    split at hs <;> cases hs
    case h_1 msg msgs hidle hq =>
      cases msg
      case message => exact (h.take hq rfl).emit emitted
      case subsystem action =>
        refine (h.take hq rfl).subsystemAction fun n t he => ?_
        exact h.inside.queued b n t (by simp [hq, he])
      case settle callers reply =>
        have horder : ∀ t ∈ (order (s.setMainRx b msgs b).translators).1, net t = net b := by
          intro t ht
          have hm := (order (s.setMainRx b msgs b).translators).2.subset ht
          exact (h.inside.setMainRx (by simp [hq])).translators t hm
        simp only [handle]
        cases reply
        case client =>
          split
          case isTrue     => exact h.take hq rfl
          case isFalse hb =>
            refine (h.take hq rfl).start (fun a ha => ?_) rfl rfl (by simp) horder
            rw [settling_setMainRx]
            exact hl callers (by simp [hq]) hb a ha
        case broker a =>
          obtain ⟨hb, hsound⟩ := h.enter (σ := ⟨_, _, _, _⟩) hq rfl rfl rfl horder
          rwa [if_neg hb]

theorem Runs.sound (h : Runs (Lone net) s) : Sound net s := by
  induction h
  case new            => exact sound_new net
  case step hl hs hi => exact hi.step hl hs

-- A settling broker which is waited for has a longer list of callers.
theorem Orderly.list_of_waitsFor (h : Orderly net s (net a)) (hw : s.WaitsFor a b)
    (hb : (s b).settling ≠ none) :
    ∃ σ τ, (s a).settling = some σ ∧ (s b).settling = some τ ∧ τ.list = σ.list ++ [b] := by
  obtain ⟨σ, ha, hw⟩ := hw
  cases h
  case idle settling _ => simp [settling a rfl] at ha
  case stacked c as υ hs =>
    rcases List.mem_cons.mp <| (hs.mem a).mpr ⟨rfl, by simp [ha]⟩ with rfl | hm
    case inl =>
      cases Option.some.inj (ha.symm.trans hs.top)
      obtain ⟨hk, hlist⟩ := hs.asks b hw
      exact absurd (hs.under.subset b <| (hs.mem b).mpr ⟨hk, hb⟩) hlist
    case inr =>
      obtain ⟨ρ, d, τ, hr, hd, ht, hl⟩ := hs.under.waits hs.top a hm
      cases Option.some.inj (ha.symm.trans hr)
      cases hw.symm.trans hd
      exact ⟨σ, τ, ha, ht, hl⟩

-- How many callers a broker has, which counts it too.
def callers (s : Brokers) (b : BrokerID) : Nat :=
  (s b).settling.elim 0 (·.list.length)

theorem Sound.callers_lt (h : Sound net s) (hw : Relation.TransGen s.WaitsFor a b)
    (hb : (s b).settling ≠ none) : s.callers a < s.callers b := by
  have hlt {a c : BrokerID} (hw : s.WaitsFor a c) (hc : (s c).settling ≠ none) :
      s.callers a < s.callers c := by
    obtain ⟨σ, τ, ha, hc, hl⟩ := (h.orderly (net a)).list_of_waitsFor hw hc
    simp [callers, ha, hc, hl]
  induction hw using Relation.TransGen.head_induction_on
  case single hw => exact hlt hw hb
  case head a c hac hcb hi =>
    have hc : (s c).settling ≠ none := by
      obtain ⟨d, ⟨σ, hc, -⟩, -⟩ := Relation.TransGen.head'_iff.mp hcb
      simp [hc]
    exact (hlt hac hc).trans hi

-- Where no two brokers of a net take the `Settle` of a client at the same time, there is no
-- deadlock.
theorem not_deadlocked (h : Runs (Lone net) s) : ¬s.Deadlocked := by
  intro ⟨b, hb⟩
  have hs : (s b).settling ≠ none := by
    obtain ⟨c, ⟨σ, hc, -⟩, -⟩ := Relation.TransGen.head'_iff.mp hb
    simp [hc]
  exact lt_irrefl _ <| h.sound.callers_lt hb hs

end

section

def keepOrder (bs : List BrokerID) : { bs' : List BrokerID // bs'.Perm bs } :=
  ⟨bs, .refl bs⟩

def first : BrokerID :=
  .zero

def second : BrokerID :=
  .ofPrefix [1]

def link : SubsystemAction :=
  .add 1 (.translator second)

def linkBack : SubsystemAction :=
  .add 1 (.translator first)

theorem step_getMsg {s : Brokers} {b : BrokerID} {msg : InternMessage} {msgs : List InternMessage}
    (hi : (s b).settling = none) (hq : (s b).mainRx = msg :: msgs) :
    s.step (.getMsg b keepOrder []) = some ((s.setMainRx b msgs).handle b keepOrder [] msg) := by
  simp [step, hi, hq]

theorem lone_of_idle {s : Brokers} {b : BrokerID} (hi : ∀ a, (s a).settling = none) :
    s.Lone (fun _ => ()) (.getMsg b keepOrder []) :=
  fun _ _ _ a _ => hi a

-- One broker settles, and waits for the other one.
theorem not_deadlocked_first : ∃ s : Brokers, s.WaitsFor first second ∧ ¬s.Deadlocked := by
  let s₁ := new.send first (.subsystem link)
  let s₂ := (s₁.setMainRx first []).handle first keepOrder [] (.subsystem link)
  let s₃ := s₂.send first (.settle [] .client)
  let s₄ := (s₃.setMainRx first []).handle first keepOrder [] (.settle [] .client)
  let σ : Settling := { list := [first], rest := [second], waits := none, reply := .client }
  have hi₁ (a : BrokerID) : (s₁ a).settling = none := by simp [s₁, new, Intern.new]
  have hi₂ (a : BrokerID) : (s₂ a).settling = none := by
    by_cases ha : a = first <;> simp [s₂, handle, link, Intern.subsystemAction, ha, hi₁]
  have hi₃ (a : BrokerID) : (s₃ a).settling = none := by simp [s₃, hi₂]
  have hq₁ : (s₁ first).mainRx = [.subsystem link] := by simp [s₁, new, Intern.new]
  have hq₃ : (s₃ first).mainRx = [.settle [] .client] := by
    simp [s₃, s₂, handle, link, Intern.subsystemAction]
  have hσ : (s₄ first).settling = some σ := rfl
  have h₁ : Runs (Lone fun _ => ()) s₁ :=
    .step .new (show Lone _ new (.subsystem first link) from rfl) rfl
  have h₂ : Runs (Lone fun _ => ()) s₂ := .step h₁ (lone_of_idle hi₁) (step_getMsg (hi₁ _) hq₁)
  have h₃ : Runs (Lone fun _ => ()) s₃ :=
    .step h₂ (show Lone _ s₂ (.settle first []) from trivial) rfl
  have h₄ : Runs (Lone fun _ => ()) s₄ := .step h₃ (lone_of_idle hi₃) (step_getMsg (hi₃ _) hq₃)
  have h₅ : Runs (Lone fun _ => ()) (s₄.settleNext first σ) :=
    .step h₄ (show Lone _ s₄ (.settleNext first) from trivial) (by simp [step, hσ, σ])
  refine ⟨s₄.settleNext first σ, ⟨{ σ with rest := [], waits := some second }, ?_, rfl⟩,
    not_deadlocked h₅⟩
  have hne : second ≠ first := by decide
  simp [settleNext, σ, hne]

def crossing : List Turn := [
  .subsystem first link, .subsystem second linkBack,
  .getMsg first keepOrder [], .getMsg second keepOrder [],
  .settle first [], .settle second [],
  .getMsg first keepOrder [], .getMsg second keepOrder [],
  .settleNext first, .settleNext second
]

theorem Runs.turns {s s' : Brokers} {turns : List Turn} (h : Runs (fun _ _ => True) s)
    (hs : turns.foldlM Brokers.step s = some s') : Runs (fun _ _ => True) s' := by
  induction turns generalizing s
  case nil => cases hs; exact h
  case cons turn turns hi =>
    obtain ⟨t, ht, hs⟩ := Option.bind_eq_some_iff.mp hs
    exact hi (h.step trivial ht) hs

-- Two linked brokers settle at the same time, and each waits for the other one.
theorem crossing_deadlocked : ∃ s, Runs (fun _ _ => True) s ∧ s.Deadlocked := by
  have hs : (crossing.foldlM step new).map (fun s =>
      ((s first).settling.bind Settling.waits, (s second).settling.bind Settling.waits)) =
      some (some second, some first) := by
    decide +kernel
  obtain ⟨s, hrun, hw⟩ := Option.map_eq_some_iff.mp hs
  obtain ⟨hf, hs⟩ := Prod.mk.inj hw
  exact ⟨s, Runs.new.turns hrun, first, .tail (.single <| Option.bind_eq_some_iff.mp hf) <|
    Option.bind_eq_some_iff.mp hs⟩

end

end Brokers
