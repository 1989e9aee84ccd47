import Fledger.Arch.Forwarding
import Fledger.Lib.Loop

namespace Processing

open Forwarding (Destination InternMessage Sent Translator)

-- The sending side of a tap. Its messages can't be sent once the other side is gone.
structure Sender where
  closed : Bool
deriving DecidableEq

variable {B : Type*} (In Out : B → Type*)

-- A handler answers a call depending on all the calls before.
structure SubsystemHandler (b : B) where
  calls    : List (List (In b))
  messages : List (List (In b)) → List (In b) → List (Out b)

inductive Subsystem (b : B)
  | tapIn (tx : Sender)
  | tapOut (tx : Sender)
  | tapSyncIn (tx : Sender)
  | tapSyncOut (tx : Sender)
  | handler (h : SubsystemHandler In Out b)
  | translator (tr : Translator In Out b)

inductive SubsystemAction (b : B)
  | add (index : Nat) (ss : Subsystem In Out b)
  | remove (index : Nat)

structure Intern (b : B) where
  mainRx      : List (InternMessage In Out b)
  subsystems  : HashMap Nat (Subsystem In Out b)
  msgQueueIn  : List (Destination × In b)
  msgQueueOut : List (Destination × Out b)
  id          : BrokerID

-- A message which a tap, a handler or a translator has been given. Only the message itself reaches
-- the subsystem, the destination says where it comes from.
structure Delivery (b : B) where
  index : Nat
  msg   : InternMessage In Out b

-- What has happened during the rounds of `process`.
structure Processed (b : B) where
  intern     : Intern In Out b
  msgCount   : Nat
  sent       : List (Sent In Out)
  deliveries : List (Delivery In Out b)

variable {In Out} {b : B}

def received (index : Nat) (deliveries : List (Delivery In Out b)) :
    List (InternMessage In Out b) :=
  (deliveries.filter (·.index = index)).map Delivery.msg

def SubsystemHandler.call (h : SubsystemHandler In Out b) (msgs : List (In b)) :
    SubsystemHandler In Out b × List (Out b) :=
  ({ h with calls := h.calls ++ [msgs] }, h.messages h.calls msgs)

-- Everything is sent, or the first message already fails.
def Sender.send {M : Type*} (tx : Sender) (msgs : List M) : Option (List M) :=
  if tx.closed && !msgs.isEmpty then none else some msgs

namespace Subsystem

def sendTapOut (ss : Subsystem In Out b) (msgs : List (Destination × Out b)) :
    Option (List (Destination × Out b)) :=
  match ss with
  | .tapSyncOut tx | .tapOut tx => tx.send msgs
  | _                           => some []

def sendTapIn (ss : Subsystem In Out b) (msgs : List (Destination × In b)) :
    Option (List (Destination × In b)) :=
  match ss with
  | .tapSyncIn tx | .tapIn tx => tx.send msgs
  | _                         => some []

def sendHandler (ss : Subsystem In Out b) (index : Nat) (msgs : List (In b)) :
    Subsystem In Out b × List (Destination × Out b) :=
  match ss with
  | .handler h =>
    let (h, ret) := h.call msgs
    (.handler h, ret.map (.handled index, ·))
  | ss => (ss, [])

def isHandler : Subsystem In Out b → Bool
  | .handler _ => true
  | _          => false

def tapsIn : Subsystem In Out b → Bool
  | .tapIn _ | .tapSyncIn _ => true
  | _                       => false

def tapsOut : Subsystem In Out b → Bool
  | .tapOut _ | .tapSyncOut _ => true
  | _                         => false

-- The subsystems which get the messages of the handlers.
def takesOut : Subsystem In Out b → Bool
  | .tapOut _ | .tapSyncOut _ | .translator _ => true
  | _                                         => false

def isClosed : Subsystem In Out b → Bool
  | .tapIn tx | .tapOut tx | .tapSyncIn tx | .tapSyncOut tx => tx.closed
  | _                                                       => false

-- The other side of a tap is dropped.
def close : Subsystem In Out b → Subsystem In Out b
  | .tapIn _      => .tapIn ⟨true⟩
  | .tapOut _     => .tapOut ⟨true⟩
  | .tapSyncIn _  => .tapSyncIn ⟨true⟩
  | .tapSyncOut _ => .tapSyncOut ⟨true⟩
  | ss            => ss

end Subsystem

-- What a translator sends for a message of the broker `id`.
def forward (id : BrokerID) (tr : Translator In Out b) : InternMessage In Out b → List (Sent In Out)
  | .messageIn dst msg  => tr.translateInput (dst.trail ++ [id]) msg
  | .messageOut dst msg => tr.translateOutput (dst.trail ++ [id]) msg

namespace Intern

def subsystemAction (i : Intern In Out b) : SubsystemAction In Out b → Intern In Out b
  | .add index ss => { i with subsystems := i.subsystems.insert index ss }
  | .remove index => { i with subsystems := i.subsystems.erase index }

def getMsg (i : Intern In Out b) : InternMessage In Out b → Intern In Out b
  | .messageIn dst msg  => { i with msgQueueIn := i.msgQueueIn ++ [(dst, msg)] }
  | .messageOut dst msg => { i with msgQueueOut := i.msgQueueOut ++ [(dst, msg)] }

def idle (i : Intern In Out b) : Bool :=
  i.msgQueueIn.isEmpty && i.msgQueueOut.isEmpty

-- The calls of the translators for a message. There are none if it has been here before.
def translate (i : Intern In Out b) (msg : InternMessage In Out b) :
    List (Delivery In Out b × List (Sent In Out)) :=
  if i.id ∈ msg.dst.trail then []
  else
    (HashMap.pairs i.subsystems).flatMap fun
      | (index, .translator tr) => [(⟨index, msg⟩, forward i.id tr msg)]
      | _                       => []

def processTranslateOutMessages (i : Intern In Out b) :
    List (Delivery In Out b × List (Sent In Out)) :=
  i.msgQueueOut.flatMap fun (dst, msg) => i.translate (.messageOut dst msg)

def processTranslateInMessages (i : Intern In Out b) :
    List (Delivery In Out b × List (Sent In Out)) :=
  i.msgQueueIn.flatMap fun (dst, msg) => i.translate (.messageIn dst msg)

-- The faulty taps, and what has been sent to the others.
def sendTapOut (i : Intern In Out b) : List Nat × List (Delivery In Out b) :=
  let msgs := i.msgQueueOut.filter (·.1 ≠ .noTap)
  ((HashMap.pairs i.subsystems).filterMap fun (index, ss) =>
    if (ss.sendTapOut msgs).isNone then some index else none,
  (HashMap.pairs i.subsystems).flatMap fun (index, ss) =>
    ((ss.sendTapOut msgs).getD []).map fun m => ⟨index, .messageOut m.1 m.2⟩)

def sendTapIn (i : Intern In Out b) : List Nat × List (Delivery In Out b) :=
  let msgs := i.msgQueueIn.filter (·.1 ≠ .noTap)
  ((HashMap.pairs i.subsystems).filterMap fun (index, ss) =>
    if (ss.sendTapIn msgs).isNone then some index else none,
  (HashMap.pairs i.subsystems).flatMap fun (index, ss) =>
    ((ss.sendTapIn msgs).getD []).map fun m => ⟨index, .messageIn m.1 m.2⟩)

-- The messages for a handler. It does not get what it has made of a message itself.
def handlerMsgs (i : Intern In Out b) (index : Nat) : List (Destination × In b) :=
  i.msgQueueIn.filter (·.1 ≠ .handled index)

def processHandleMessages (i : Intern In Out b) : Intern In Out b × List (Delivery In Out b) :=
  if i.msgQueueIn.isEmpty then (i, [])
  else
    let call := fun index (ss : Subsystem In Out b) =>
      ss.sendHandler index ((i.handlerMsgs index).map Prod.snd)
    ({ i with
        subsystems  := HashMap.mapValues i.subsystems fun index ss => (call index ss).1
        msgQueueOut := i.msgQueueOut ++
          (HashMap.pairs i.subsystems).flatMap fun (index, ss) => (call index ss).2 },
      (HashMap.pairs i.subsystems).flatMap fun
        | (index, .handler _) => (i.handlerMsgs index).map fun m => ⟨index, .messageIn m.1 m.2⟩
        | _                   => [])

def processOnce (i : Intern In Out b) :
    Intern In Out b × List (Sent In Out) × List (Delivery In Out b) :=
  let translations := i.processTranslateOutMessages ++ i.processTranslateInMessages
  let (faultyOut, tapOut) := i.sendTapOut
  let (faultyIn, tapIn)   := i.sendTapIn
  let (i, handled)        := processHandleMessages { i with msgQueueOut := [] }
  let i := { i with msgQueueIn := [] }
  let i :=
    (faultyOut ++ faultyIn).reverse.foldl (fun i index => i.subsystemAction (.remove index)) i
  (i, translations.flatMap Prod.snd, translations.map Prod.fst ++ tapOut ++ tapIn ++ handled)

end Intern

def Processed.processOnce (p : Processed In Out b) : Processed In Out b :=
  let (i, sent, deliveries) := p.intern.processOnce
  { intern     := i
    msgCount   := p.msgCount + (p.intern.msgQueueIn.length + p.intern.msgQueueOut.length)
    sent       := p.sent ++ sent
    deliveries := p.deliveries ++ deliveries }

-- Goes on until both queues are empty, for a number of rounds at most.
def Intern.process (i : Intern In Out b) (rounds : Nat) : Option (Processed In Out b) :=
  Loop.run (fun p => !p.intern.idle) Processed.processOnce rounds
    (Processed.processOnce ⟨i, 0, [], []⟩)

def inMessages (msgs : List (Destination × In b)) : List (InternMessage In Out b) :=
  msgs.map fun m => .messageIn m.1 m.2

def outMessages (msgs : List (Destination × Out b)) : List (InternMessage In Out b) :=
  msgs.map fun m => .messageOut m.1 m.2

namespace Intern

-- All taps are still there.
def Working (i : Intern In Out b) : Prop :=
  ∀ index ss, i.subsystems.lookup index = some ss → ss.isClosed = false

-- No message has been here before.
structure LoopFree (i : Intern In Out b) : Prop where
  msgQueueIn  : ∀ m ∈ i.msgQueueIn, i.id ∉ m.1.trail
  msgQueueOut : ∀ m ∈ i.msgQueueOut, i.id ∉ m.1.trail

-- What the handlers make of the messages.
def handled (i : Intern In Out b) : List (Destination × Out b) :=
  if i.msgQueueIn.isEmpty then []
  else
    (HashMap.pairs i.subsystems).flatMap fun
      | (index, .handler h) =>
        (h.messages h.calls ((i.handlerMsgs index).map Prod.snd)).map (.handled index, ·)
      | _                   => []

-- What one round gives to a subsystem.
def deliveriesFor (i : Intern In Out b) (index : Nat) :
    Subsystem In Out b → List (InternMessage In Out b)
  | .tapIn tx | .tapSyncIn tx   =>
    if tx.closed then [] else inMessages (i.msgQueueIn.filter (·.1 ≠ .noTap))
  | .tapOut tx | .tapSyncOut tx =>
    if tx.closed then [] else outMessages (i.msgQueueOut.filter (·.1 ≠ .noTap))
  | .handler _                  => inMessages (i.handlerMsgs index)
  | .translator _               =>
    outMessages (i.msgQueueOut.filter (i.id ∉ ·.1.trail)) ++
      inMessages (i.msgQueueIn.filter (i.id ∉ ·.1.trail))

variable {i : Intern In Out b} {index : Nat} {msg : InternMessage In Out b}

theorem send_eq_some {M : Type*} {tx : Sender} {msgs : List M} (h : tx.closed = false) :
    tx.send msgs = some msgs := by
  simp [Sender.send, h]

theorem getD_send {M : Type*} (tx : Sender) (msgs : List M) :
    (tx.send msgs).getD [] = if tx.closed then [] else msgs := by
  cases hc : tx.closed <;> cases msgs <;> simp [Sender.send, hc]

theorem filter_messages (p : Destination → Bool) (i : Intern In Out b) :
    (outMessages i.msgQueueOut ++ inMessages i.msgQueueIn).filter (p ·.dst) =
      outMessages (i.msgQueueOut.filter (p ·.1)) ++ inMessages (i.msgQueueIn.filter (p ·.1)) := by
  rw [List.filter_append, outMessages, List.filter_map, inMessages, List.filter_map]
  rfl

theorem received_append (ds ds' : List (Delivery In Out b)) :
    received index (ds ++ ds') = received index ds ++ received index ds' := by
  simp only [received, List.filter_append, List.map_append]

theorem received_flatMap (index : Nat)
    (g : Nat → Subsystem In Out b → List (InternMessage In Out b))
    (m : HashMap Nat (Subsystem In Out b)) :
    received index (m.pairs.flatMap fun e => (g e.1 e.2).map (⟨e.1, ·⟩)) =
      (m.lookup index).elim [] (g index) := by
  have hk (k : Nat) (ss : Subsystem In Out b) :
      ∀ d ∈ (g k ss).map fun msg => (⟨k, msg⟩ : Delivery In Out b), d.index = k := by
    intro d hd
    obtain ⟨_, _, rfl⟩ := List.mem_map.mp hd
    rfl
  rw [received, HashMap.filter_flatMap_pairs hk m index]
  cases m.lookup index
  case none    => rfl
  case some ss =>
    exact List.map_map.trans (List.map_id _)

theorem received_translate :
    received index ((i.translate msg).map Prod.fst) =
      if i.id ∈ msg.dst.trail then []
      else (i.subsystems.lookup index).elim [] fun
        | .translator _ => [msg]
        | _             => [] := by
  rw [translate]
  split
  case isTrue  => rfl
  case isFalse =>
    rw [← received_flatMap index fun _ ss => match ss with
      | .translator _ => [msg]
      | _             => []]
    rw [List.map_flatMap]
    congr 2
    funext e
    obtain ⟨index, ss⟩ := e
    cases ss <;> rfl

theorem received_translate_flatMap (msgs : List (InternMessage In Out b)) :
    received index ((msgs.flatMap i.translate).map Prod.fst) =
      (i.subsystems.lookup index).elim [] fun
        | .translator _ => msgs.filter (i.id ∉ ·.dst.trail)
        | _             => [] := by
  induction msgs
  case nil =>
    cases i.subsystems.lookup index
    case none    => rfl
    case some ss => cases ss <;> rfl
  case cons msg msgs hi =>
    rw [List.flatMap_cons, List.map_append, received_append, hi, received_translate,
      List.filter_cons]
    cases i.subsystems.lookup index
    case none    => split <;> rfl
    case some ss => cases ss <;> by_cases ht : i.id ∈ msg.dst.trail <;> simp [ht]

theorem received_sendTapOut :
    received index i.sendTapOut.2 = (i.subsystems.lookup index).elim [] fun
      | .tapOut tx | .tapSyncOut tx =>
        if tx.closed then [] else outMessages (i.msgQueueOut.filter (·.1 ≠ .noTap))
      | _                           => [] := by
  have h := received_flatMap index
    (fun _ ss => outMessages ((ss.sendTapOut (i.msgQueueOut.filter (·.1 ≠ .noTap))).getD []))
    i.subsystems
  simp only [outMessages, List.map_map] at h
  refine h.trans ?_
  cases i.subsystems.lookup index
  case none    => rfl
  case some ss =>
    cases ss
    case tapOut tx | tapSyncOut tx =>
      simp only [Option.elim_some, Subsystem.sendTapOut, getD_send]
      split <;> rfl
    all_goals rfl

theorem received_sendTapIn :
    received index i.sendTapIn.2 = (i.subsystems.lookup index).elim [] fun
      | .tapIn tx | .tapSyncIn tx =>
        if tx.closed then [] else inMessages (i.msgQueueIn.filter (·.1 ≠ .noTap))
      | _                         => [] := by
  have h := received_flatMap index
    (fun _ ss => inMessages ((ss.sendTapIn (i.msgQueueIn.filter (·.1 ≠ .noTap))).getD []))
    i.subsystems
  simp only [inMessages, List.map_map] at h
  refine h.trans ?_
  cases i.subsystems.lookup index
  case none    => rfl
  case some ss =>
    cases ss
    case tapIn tx | tapSyncIn tx =>
      simp only [Option.elim_some, Subsystem.sendTapIn, getD_send]
      split <;> rfl
    all_goals rfl

theorem received_processHandleMessages :
    received index i.processHandleMessages.2 = (i.subsystems.lookup index).elim [] fun
      | .handler _ => inMessages (i.handlerMsgs index)
      | _          => [] := by
  rw [processHandleMessages]
  split
  case isTrue he =>
    have hm : i.handlerMsgs index = [] := by
      rw [handlerMsgs, List.isEmpty_iff.mp he]
      rfl
    rw [hm]
    cases i.subsystems.lookup index
    case none    => rfl
    case some ss => cases ss <;> rfl
  case isFalse =>
    refine Eq.trans ?_ <| received_flatMap index (fun index ss => match ss with
      | .handler _ => inMessages (i.handlerMsgs index)
      | _          => []) i.subsystems
    apply congrArg
    apply congrArg (List.flatMap · _)
    funext e
    obtain ⟨index, ss⟩ := e
    cases ss
    case handler => exact List.map_map.symm
    all_goals rfl

-- A round gives the messages of its queues to each subsystem, and nothing else.
theorem received_processOnce :
    received index i.processOnce.2.2 =
      (i.subsystems.lookup index).elim [] (i.deliveriesFor index) := by
  have ht : i.processTranslateOutMessages ++ i.processTranslateInMessages =
      (outMessages i.msgQueueOut ++ inMessages i.msgQueueIn).flatMap i.translate := by
    rw [List.flatMap_append, outMessages, inMessages, List.flatMap_map, List.flatMap_map]
    rfl
  have hp : i.processOnce.2.2 =
      ((i.processTranslateOutMessages ++ i.processTranslateInMessages).map Prod.fst ++
        i.sendTapOut.2 ++ i.sendTapIn.2 ++
        (processHandleMessages { i with msgQueueOut := [] }).2) := rfl
  rw [hp, ht, received_append, received_append, received_append, received_translate_flatMap,
    received_sendTapOut, received_sendTapIn, received_processHandleMessages]
  cases i.subsystems.lookup index
  case none => rfl
  case some ss =>
    cases ss
    case translator =>
      simp only [Option.elim_some, deliveriesFor, List.append_nil]
      exact filter_messages (fun dst => i.id ∉ dst.trail) i
    all_goals simp [deliveriesFor, handlerMsgs]

-- What becomes of a subsystem during a round.
def answered (i : Intern In Out b) (index : Nat) (ss : Subsystem In Out b) : Subsystem In Out b :=
  if i.msgQueueIn.isEmpty then ss
  else (ss.sendHandler index ((i.handlerMsgs index).map Prod.snd)).1

theorem foldl_remove (indexes : List Nat) :
    indexes.foldl (fun i index => i.subsystemAction (.remove index)) i =
      { i with subsystems := indexes.foldl (fun m index => m.erase index) i.subsystems } := by
  induction indexes generalizing i
  case nil           => rfl
  case cons index indexes hi => exact hi

theorem msgQueueOut_processOnce : i.processOnce.1.msgQueueOut = i.handled := by
  rw [processOnce]
  simp only [foldl_remove, processHandleMessages, handled]
  split
  case isTrue  => rfl
  case isFalse =>
    apply congrArg (List.flatMap · _)
    funext e
    obtain ⟨index, ss⟩ := e
    cases ss <;> rfl

theorem msgQueueIn_processOnce : i.processOnce.1.msgQueueIn = [] := by
  rw [processOnce]
  simp only [foldl_remove]

theorem mainRx_processOnce : i.processOnce.1.mainRx = i.mainRx := by
  rw [processOnce]
  simp only [foldl_remove, processHandleMessages]
  split <;> rfl

theorem id_processOnce : i.processOnce.1.id = i.id := by
  rw [processOnce]
  simp only [foldl_remove, processHandleMessages]
  split <;> rfl

theorem faulty_eq_nil (hw : i.Working) : i.sendTapOut.1 ++ i.sendTapIn.1 = [] := by
  rw [List.append_eq_nil_iff, sendTapOut, sendTapIn, List.filterMap_eq_nil_iff,
    List.filterMap_eq_nil_iff]
  constructor
  all_goals
    intro e he
    obtain ⟨index, ss⟩ := e
    have hc := hw index ss <| HashMap.mem_pairs.mp he
    cases ss
  case left.tapOut | left.tapSyncOut  => simp [Subsystem.sendTapOut, send_eq_some hc]
  case right.tapIn | right.tapSyncIn  => simp [Subsystem.sendTapIn, send_eq_some hc]
  all_goals rfl

-- Only the taps which are closed are removed.
theorem subsystems_processOnce (hw : i.Working) :
    i.processOnce.1.subsystems = HashMap.mapValues i.subsystems i.answered := by
  rw [processOnce]
  simp only [faulty_eq_nil hw, processHandleMessages]
  split
  case isTrue he =>
    have ha : i.answered = fun _ ss => ss := funext₂ fun _ _ => if_pos he
    rw [ha, HashMap.mapValues_id]
    rfl
  case isFalse he =>
    have ha : i.answered = fun index ss =>
        (ss.sendHandler index ((i.handlerMsgs index).map Prod.snd)).1 :=
      funext₂ fun _ _ => if_neg he
    rw [ha]
    rfl

theorem lookup_processOnce (hw : i.Working) :
    i.processOnce.1.subsystems.lookup index =
      (i.subsystems.lookup index).map (i.answered index) := by
  rw [subsystems_processOnce hw, HashMap.lookup_mapValues]

theorem answered_isClosed {ss : Subsystem In Out b} :
    (i.answered index ss).isClosed = ss.isClosed := by
  rw [answered]
  split
  case isTrue  => rfl
  case isFalse => cases ss <;> rfl

theorem working_processOnce (hw : i.Working) : i.processOnce.1.Working := by
  intro index ss h
  rw [lookup_processOnce hw] at h
  obtain ⟨ss, hl, rfl⟩ := Option.map_eq_some_iff.mp h
  exact answered_isClosed.trans (hw index ss hl)

theorem trail_handled {m : Destination × Out b} (h : m ∈ i.handled) :
    ∃ index, m.1 = .handled index := by
  rw [handled] at h
  split at h
  case isTrue  => cases h
  case isFalse =>
    obtain ⟨e, _, h⟩ := List.mem_flatMap.mp h
    obtain ⟨index, ss⟩ := e
    cases ss
    case handler =>
      obtain ⟨_, _, rfl⟩ := List.mem_map.mp h
      exact ⟨index, rfl⟩
    all_goals cases h

-- Nothing is left after the second round.
theorem idle_processOnce_processOnce : i.processOnce.1.processOnce.1.idle := by
  have hh : i.processOnce.1.handled = [] := by
    rw [handled, msgQueueIn_processOnce]
    rfl
  rw [idle, msgQueueIn_processOnce, msgQueueOut_processOnce, hh]
  rfl

theorem received_processOnce_of_idle (h : i.idle) : received index i.processOnce.2.2 = [] := by
  have ⟨hi, ho⟩ := Bool.and_eq_true _ _ |>.mp h
  rw [received_processOnce]
  cases i.subsystems.lookup index
  case none    => rfl
  case some ss =>
    cases ss
    all_goals
      simp [deliveriesFor, handlerMsgs, List.isEmpty_iff.mp hi, List.isEmpty_iff.mp ho, inMessages,
        outMessages]

-- There are two rounds at most. The second one is for the messages of the handlers.
theorem process_eq (i : Intern In Out b) :
    ∃ p, i.process 2 = some p ∧ p.intern.idle ∧
      p.msgCount = i.msgQueueIn.length + i.msgQueueOut.length + i.handled.length ∧
      (p.intern = i.processOnce.1 ∨ p.intern = i.processOnce.1.processOnce.1) ∧
      ∀ index, received index p.deliveries =
        received index i.processOnce.2.2 ++ received index i.processOnce.1.processOnce.2.2 := by
  cases hi : i.processOnce.1.idle
  case true =>
    have ho : i.handled = [] := by
      rw [idle, msgQueueOut_processOnce, Bool.and_eq_true] at hi
      exact List.isEmpty_iff.mp hi.right
    refine ⟨.processOnce ⟨i, 0, [], []⟩, ?_, hi, ?_, .inl rfl, fun index => ?_⟩
    case refine_1 => simp [process, Loop.run, Processed.processOnce, hi]
    case refine_2 => simp [Processed.processOnce, ho]
    case refine_3 => simp [Processed.processOnce, received_processOnce_of_idle hi]
  case false =>
    have hi' := i.idle_processOnce_processOnce
    refine ⟨.processOnce (.processOnce ⟨i, 0, [], []⟩), ?_, hi', ?_, .inr rfl, fun index => ?_⟩
    case refine_1 => simp [process, Loop.run, Processed.processOnce, hi, hi']
    case refine_2 =>
      simp [Processed.processOnce, msgQueueIn_processOnce, msgQueueOut_processOnce]
    case refine_3 => exact received_append _ _

end Intern

-- What `process` does with each of the messages in its queues.
structure ExactlyOnce (i : Intern In Out b) (p : Processed In Out b) : Prop where
  idle        : p.intern.idle
  msgCount    : p.msgCount = i.msgQueueIn.length + i.msgQueueOut.length + i.handled.length
  handlers    : ∀ index h, i.subsystems.lookup index = some (.handler h) →
    received index p.deliveries = inMessages (i.handlerMsgs index)
  calls       : ∀ index h, i.subsystems.lookup index = some (.handler h) → i.msgQueueIn ≠ [] →
    p.intern.subsystems.lookup index =
      some (.handler { h with calls := h.calls ++ [(i.handlerMsgs index).map Prod.snd] })
  tapsIn      : ∀ index ss, i.subsystems.lookup index = some ss → ss.tapsIn →
    received index p.deliveries = inMessages (i.msgQueueIn.filter (·.1 ≠ .noTap))
  tapsOut     : ∀ index ss, i.subsystems.lookup index = some ss → ss.tapsOut →
    received index p.deliveries =
      outMessages (i.msgQueueOut.filter (·.1 ≠ .noTap)) ++ outMessages i.handled
  translators : ∀ index tr, i.subsystems.lookup index = some (.translator tr) →
    received index p.deliveries =
      outMessages i.msgQueueOut ++ inMessages i.msgQueueIn ++ outMessages i.handled

namespace Intern

variable {i : Intern In Out b} {index : Nat} {ss : Subsystem In Out b}

theorem deliveriesFor_answered {i' : Intern In Out b} :
    i'.deliveriesFor index (i.answered index ss) = i'.deliveriesFor index ss := by
  rw [answered]
  split
  case isTrue  => rfl
  case isFalse => cases ss <;> rfl

-- Both rounds together.
theorem received_process (hw : i.Working) (hl : i.subsystems.lookup index = some ss) :
    received index i.processOnce.2.2 ++ received index i.processOnce.1.processOnce.2.2 =
      i.deliveriesFor index ss ++ i.processOnce.1.deliveriesFor index ss := by
  rw [received_processOnce, received_processOnce, lookup_processOnce hw, hl]
  exact congrArg (_ ++ ·) deliveriesFor_answered

theorem lookup_process {p : Processed In Out b} (hw : i.Working)
    (hp : p.intern = i.processOnce.1 ∨ p.intern = i.processOnce.1.processOnce.1) :
    p.intern.subsystems.lookup index = (i.subsystems.lookup index).map (i.answered index) := by
  cases hp
  case inl hp => rw [hp, lookup_processOnce hw]
  case inr hp =>
    have ha : i.processOnce.1.answered index = fun ss => ss :=
      funext fun _ => if_pos <| List.isEmpty_iff.mpr msgQueueIn_processOnce
    rw [hp, lookup_processOnce (working_processOnce hw), ha, Option.map_id', lookup_processOnce hw]

theorem filter_noTap_handled : i.handled.filter (·.1 ≠ .noTap) = i.handled := by
  apply List.filter_eq_self.mpr
  intro m hm
  have ⟨_, h⟩ := trail_handled hm
  simp [h]

theorem filter_trail_handled (id : BrokerID) :
    i.handled.filter (id ∉ ·.1.trail) = i.handled := by
  apply List.filter_eq_self.mpr
  intro m hm
  have ⟨_, h⟩ := trail_handled hm
  simp [h, Destination.trail]

theorem LoopFree.filter_eq (h : i.LoopFree) :
    i.msgQueueIn.filter (i.id ∉ ·.1.trail) = i.msgQueueIn ∧
      i.msgQueueOut.filter (i.id ∉ ·.1.trail) = i.msgQueueOut where
  left  := List.filter_eq_self.mpr fun m hm => decide_eq_true (h.msgQueueIn m hm)
  right := List.filter_eq_self.mpr fun m hm => decide_eq_true (h.msgQueueOut m hm)

-- The second round only has the messages of the handlers.
theorem deliveriesFor_processOnce (hc : ss.isClosed = false) :
    i.processOnce.1.deliveriesFor index ss =
      if ss.takesOut then outMessages i.handled else [] := by
  cases ss
  case tapIn tx | tapSyncIn tx | handler h =>
    simp [deliveriesFor, handlerMsgs, msgQueueIn_processOnce, Subsystem.takesOut, inMessages]
  case tapOut tx | tapSyncOut tx =>
    have ht : tx.closed = false := hc
    simp only [deliveriesFor, ht, msgQueueOut_processOnce, filter_noTap_handled, Subsystem.takesOut]
    rfl
  case translator tr =>
    simp only [deliveriesFor, msgQueueIn_processOnce, msgQueueOut_processOnce,
      filter_trail_handled, Subsystem.takesOut]
    simp [inMessages]

theorem process_exactlyOnce (i : Intern In Out b) (hw : i.Working) (hl : i.LoopFree) :
    ∃ p, i.process 2 = some p ∧ ExactlyOnce i p := by
  have ⟨p, hp, hi, hc, hs, hr⟩ := i.process_eq
  have hd {index ss} (hk : i.subsystems.lookup index = some ss) :
      received index p.deliveries = i.deliveriesFor index ss ++
        if ss.takesOut then outMessages i.handled else [] := by
    rw [hr, received_process hw hk, deliveriesFor_processOnce (hw _ _ hk)]
  refine ⟨p, hp, ?_⟩
  constructor
  case idle     => exact hi
  case msgCount => exact hc
  case handlers =>
    intro index h hk
    simp [hd hk, deliveriesFor, Subsystem.takesOut]
  case calls =>
    intro index h hk hq
    have he : ¬ i.msgQueueIn.isEmpty := fun he => hq (List.isEmpty_iff.mp he)
    rw [lookup_process hw hs, hk, Option.map_some, answered, if_neg he]
    rfl
  case tapsIn =>
    intro index ss hk ht
    have hc := hw index ss hk
    cases ss
    case tapIn tx | tapSyncIn tx =>
      have hc : tx.closed = false := hc
      simp [hd hk, deliveriesFor, Subsystem.takesOut, hc]
    all_goals cases ht
  case tapsOut =>
    intro index ss hk ht
    have hc := hw index ss hk
    cases ss
    case tapOut tx | tapSyncOut tx =>
      have hc : tx.closed = false := hc
      simp [hd hk, deliveriesFor, Subsystem.takesOut, hc]
    all_goals cases ht
  case translators =>
    intro index tr hk
    have ⟨hi, ho⟩ := hl.filter_eq
    simp only [hd hk, deliveriesFor, hi, ho, Subsystem.takesOut, if_true]

end Intern

-- What is left when the taps and the calls of the handlers are forgotten.
def Subsystem.forget : Subsystem In Out b → Forwarding.Subsystem In Out b
  | .handler h     => .handler (h.messages h.calls)
  | .translator tr => .translator tr
  | _              => .tap

namespace Intern

def forget (i : Intern In Out b) : Forwarding.Intern In Out b where
  mainRx      := i.mainRx
  subsystems  := HashMap.mapValues i.subsystems fun _ ss => ss.forget
  msgQueueIn  := i.msgQueueIn
  msgQueueOut := i.msgQueueOut
  id          := i.id

-- The handlers always answer in the same way.
def Stateless (i : Intern In Out b) : Prop :=
  ∀ index h, i.subsystems.lookup index = some (.handler h) →
    ∀ calls, h.messages calls = h.messages h.calls

variable {i : Intern In Out b} {msg : InternMessage In Out b}

theorem pairs_forget :
    HashMap.pairs i.forget.subsystems =
      (HashMap.pairs i.subsystems).map fun e => (e.1, e.2.forget) :=
  HashMap.pairs_mapValues _

theorem flatMap_translators_forget {α : Type*} (f : Translator In Out b → List α) :
    i.forget.translators.flatMap f = (HashMap.pairs i.subsystems).flatMap fun
      | (_, .translator tr) => f tr
      | _                   => [] := by
  rw [Forwarding.Intern.translators, ← HashMap.map_snd_pairs, pairs_forget]
  induction HashMap.pairs i.subsystems
  case nil => rfl
  case cons e es hi =>
    obtain ⟨index, ss⟩ := e
    cases ss
    case translator tr => exact congrArg (f tr ++ ·) hi
    all_goals exact hi

theorem translate_forget : i.forget.translate msg = (i.translate msg).flatMap Prod.snd := by
  have ht : i.forget.translators.flatMap (forward i.id · msg) =
      ((HashMap.pairs i.subsystems).flatMap fun
        | (index, .translator tr) => [((⟨index, msg⟩ : Delivery In Out b), forward i.id tr msg)]
        | _                       => []).flatMap Prod.snd := by
    rw [flatMap_translators_forget, List.flatMap_assoc]
    apply congrArg (List.flatMap · _)
    funext e
    obtain ⟨index, ss⟩ := e
    cases ss
    case translator => exact (List.append_nil _).symm
    all_goals rfl
  rw [translate]
  by_cases h : i.id ∈ msg.dst.trail
  case pos =>
    rw [if_pos h]
    cases msg <;> exact if_pos h
  case neg =>
    rw [if_neg h, ← ht]
    cases msg <;> exact if_neg h

theorem sent_processOnce : i.processOnce.2.1 = i.forget.processOnce.2 := by
  have ho : i.forget.processTranslateOutMessages =
      i.processTranslateOutMessages.flatMap Prod.snd := by
    rw [processTranslateOutMessages, List.flatMap_assoc]
    exact congrArg (List.flatMap · _) <| funext fun _ => translate_forget
  have hi : i.forget.processTranslateInMessages =
      i.processTranslateInMessages.flatMap Prod.snd := by
    rw [processTranslateInMessages, List.flatMap_assoc]
    exact congrArg (List.flatMap · _) <| funext fun _ => translate_forget
  rw [Forwarding.Intern.processOnce, ho, hi, ← List.flatMap_append]
  rfl

theorem handled_forget : i.forget.processHandleMessages = i.handled := by
  rw [Forwarding.Intern.processHandleMessages, handled, pairs_forget, List.flatMap_map]
  apply congrArg (ite _ _)
  apply congrArg (List.flatMap · _)
  funext e
  obtain ⟨index, ss⟩ := e
  cases ss <;> rfl

-- A round of the broker is a round of the one which only forwards messages.
theorem forget_processOnce (hw : i.Working) (hs : i.Stateless) :
    (i.processOnce.1.forget, i.processOnce.2.1) = i.forget.processOnce := by
  have hm : HashMap.mapValues i.processOnce.1.subsystems (fun _ ss => ss.forget) =
      HashMap.mapValues i.subsystems fun _ ss => ss.forget := by
    rw [subsystems_processOnce hw, HashMap.mapValues_mapValues]
    apply HashMap.mapValues_congr
    intro index ss hl
    rw [answered]
    split
    case isTrue  => rfl
    case isFalse =>
      cases ss
      case handler h => exact congrArg Forwarding.Subsystem.handler (hs index h hl _)
      all_goals rfl
  have hf : i.processOnce.1.forget = i.forget.processOnce.1 := by
    rw [forget, hm, msgQueueIn_processOnce, msgQueueOut_processOnce, id_processOnce,
      mainRx_processOnce, Forwarding.Intern.processOnce, handled_forget]
    rfl
  exact Prod.ext hf sent_processOnce

end Intern

section Concrete

open Forwarding (ringTranslator)

-- A broker with all kinds of subsystems, and messages for all of them.
def busy : Intern (fun _ : Bool => Nat) (fun _ => Nat) false where
  mainRx      := []
  subsystems  :=
    { entries   := [⟨1, .translator (ringTranslator false)⟩, ⟨2, .tapOut ⟨false⟩⟩,
        ⟨3, .handler ⟨[], fun _ msgs => msgs.map (· + 10)⟩⟩, ⟨4, .tapSyncIn ⟨false⟩⟩]
      nodupKeys := (by decide : [1, 2, 3, 4].Nodup) }
  msgQueueIn  := [(.all, 1), (.handled 3, 2), (.noTap, 3)]
  msgQueueOut := [(.forwarded [], 4), (.noTap, 5)]
  id          := U256.ofPrefix [0]

theorem process_busy :
    ∃ p, busy.process 2 = some p ∧ p.msgCount = 7 ∧
      received 2 p.deliveries =
        [.messageOut (.forwarded []) 4, .messageOut (.handled 3) 11, .messageOut (.handled 3) 13] ∧
      ExactlyOnce busy p := by
  have hw : busy.Working := by
    intro index ss h
    have hm := HashMap.mem_pairs.mpr h
    simp only [busy, HashMap.pairs, List.map_cons, List.map_nil, List.mem_cons, Prod.mk.injEq,
      List.not_mem_nil, or_false] at hm
    obtain ⟨_, rfl⟩ | ⟨_, rfl⟩ | ⟨_, rfl⟩ | ⟨_, rfl⟩ := hm <;> rfl
  have hl : busy.LoopFree := ⟨by decide, by decide⟩
  obtain ⟨p, hp, he⟩ := busy.process_exactlyOnce hw hl
  exact ⟨p, hp, he.msgCount, he.tapsOut 2 _ rfl rfl, he⟩

end Concrete

end Processing
