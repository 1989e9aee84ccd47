import Mathlib.Algebra.BigOperators.Group.Finset.Basic
import Mathlib.Data.Fintype.Card
import Fledger.Arch.Settle
import Fledger.Lib.Offspring

namespace Forwarding

inductive Destination
  | all
  | noTap
  | forwarded (trail : List BrokerID)
  | handled (index : Nat)
deriving DecidableEq

-- The brokers which already handled a message.
def Destination.trail : Destination → List BrokerID
  | .forwarded trail => trail
  | _                => []

-- Each broker has its own types of messages.
variable {B : Type*} (In Out : B → Type*)

inductive InternMessage (b : B)
  | messageIn (dst : Destination) (msg : In b)
  | messageOut (dst : Destination) (msg : Out b)

-- A message and the broker it is sent to.
abbrev Sent :=
  (b : B) × InternMessage In Out b

structure Translator (b : B) where
  broker         : B
  translateFnITi : Option (In b → Option (In broker))
  translateFnITo : Option (In b → Option (Out broker))
  translateFnOTi : Option (Out b → Option (In broker))
  translateFnOTo : Option (Out b → Option (Out broker))

inductive Subsystem (b : B)
  | tap
  | handler (messages : List (In b) → List (Out b))
  | translator (tr : Translator In Out b)

structure Intern (b : B) where
  mainRx      : List (InternMessage In Out b)
  subsystems  : HashMap Nat (Subsystem In Out b)
  msgQueueIn  : List (Destination × In b)
  msgQueueOut : List (Destination × Out b)
  id          : BrokerID

variable {In Out} {b : B}

def InternMessage.dst : InternMessage In Out b → Destination
  | .messageIn dst _ | .messageOut dst _ => dst

def Sent.trail (m : Sent In Out) : List BrokerID :=
  m.2.dst.trail

namespace Translator

def emitTiTo (tr : Translator In Out b) (trail : List BrokerID) (msgTi : Option (In tr.broker))
    (msgTo : Option (Out tr.broker)) : List (Sent In Out) :=
  (msgTi.map fun msg => ⟨tr.broker, .messageIn (.forwarded trail) msg⟩).toList ++
    (msgTo.map fun msg => ⟨tr.broker, .messageOut (.forwarded trail) msg⟩).toList

def translateInput (tr : Translator In Out b) (trail : List BrokerID) (msg : In b) :
    List (Sent In Out) :=
  tr.emitTiTo trail (tr.translateFnITi.bind (· msg)) (tr.translateFnITo.bind (· msg))

def translateOutput (tr : Translator In Out b) (trail : List BrokerID) (msg : Out b) :
    List (Sent In Out) :=
  tr.emitTiTo trail (tr.translateFnOTi.bind (· msg)) (tr.translateFnOTo.bind (· msg))

end Translator

namespace Intern

def new (id : BrokerID) (subsystems : HashMap Nat (Subsystem In Out b)) : Intern In Out b where
  mainRx      := []
  subsystems  := subsystems
  msgQueueIn  := []
  msgQueueOut := []
  id          := id

def translators (i : Intern In Out b) : List (Translator In Out b) :=
  (HashMap.values i.subsystems).filterMap fun
    | .translator tr => some tr
    | _              => none

-- The body of the two translation loops. A message which has been here before is dropped.
def translate (i : Intern In Out b) : InternMessage In Out b → List (Sent In Out)
  | .messageIn dst msg  =>
    if i.id ∈ dst.trail then []
    else i.translators.flatMap (·.translateInput (dst.trail ++ [i.id]) msg)
  | .messageOut dst msg =>
    if i.id ∈ dst.trail then []
    else i.translators.flatMap (·.translateOutput (dst.trail ++ [i.id]) msg)

def processTranslateOutMessages (i : Intern In Out b) : List (Sent In Out) :=
  i.msgQueueOut.flatMap fun (dst, msg) => i.translate (.messageOut dst msg)

def processTranslateInMessages (i : Intern In Out b) : List (Sent In Out) :=
  i.msgQueueIn.flatMap fun (dst, msg) => i.translate (.messageIn dst msg)

-- The new messages of the handlers. No handler gets what it has made of a message itself.
def processHandleMessages (i : Intern In Out b) : List (Destination × Out b) :=
  if i.msgQueueIn.isEmpty then []
  else
    (HashMap.pairs i.subsystems).flatMap fun
      | (index, .handler messages) =>
        let msgs := (i.msgQueueIn.filter (·.1 ≠ .handled index)).map Prod.snd
        (messages msgs).map (.handled index, ·)
      | _ => []

-- The taps only get copies of the messages.
def processOnce (i : Intern In Out b) : Intern In Out b × List (Sent In Out) :=
  let sent := i.processTranslateOutMessages ++ i.processTranslateInMessages
  ({ i with msgQueueOut := i.processHandleMessages, msgQueueIn := [] }, sent)

def getMsg (i : Intern In Out b) : InternMessage In Out b → Intern In Out b
  | .messageIn dst msg  => { i with msgQueueIn := i.msgQueueIn ++ [(dst, msg)] }
  | .messageOut dst msg => { i with msgQueueOut := i.msgQueueOut ++ [(dst, msg)] }

-- `process` goes on until both queues are empty, and only then the next message is taken.
def idle (i : Intern In Out b) : Bool :=
  i.msgQueueIn.isEmpty && i.msgQueueOut.isEmpty

end Intern

-- A message of a client, or a turn of the loop of a broker.
inductive Turn (In Out : B → Type*)
  | emit (m : Sent In Out)
  | getMsg (b : B)
  | processOnce (b : B)

def Turn.emitted : Turn In Out → Option (Sent In Out)
  | .emit m => some m
  | _       => none

def emissions (turns : List (Turn In Out)) : Multiset (Sent In Out) :=
  .ofList <| turns.filterMap Turn.emitted

-- A turn of a broker.
def Turn.works : Turn In Out → Bool
  | .emit _ => false
  | _       => true

abbrev Brokers (In Out : B → Type*) :=
  (b : B) → Intern In Out b

variable [DecidableEq B]

namespace Brokers

def send (s : Brokers In Out) (m : Sent In Out) : Brokers In Out :=
  Function.update s m.1 { s m.1 with mainRx := (s m.1).mainRx ++ [m.2] }

-- The next state, with the messages which are forwarded.
def step (s : Brokers In Out) : Turn In Out → Option (Brokers In Out × List (Sent In Out))
  | .emit m        => some (s.send m, [])
  | .getMsg b      =>
    match (s b).idle, (s b).mainRx with
    | true, msg :: mainRx => some (Function.update s b <| { s b with mainRx }.getMsg msg, [])
    | _, _                => none
  | .processOnce b =>
    if (s b).idle then none
    else
      let (i, sent) := (s b).processOnce
      some (sent.foldl send (Function.update s b i), sent)

-- All runs, with their turns (the last one first) and all messages which have been forwarded.
inductive Runs (s : Brokers In Out) :
    List (Turn In Out) → Brokers In Out → List (Sent In Out) → Prop
  | start : Runs s [] s []
  | step {turns turn s₁ s₂ out out'} :
    Runs s turns s₁ out → s₁.step turn = some (s₂, out') → Runs s (turn :: turns) s₂ (out' ++ out)

end Brokers

-- The graph of the brokers.
structure Net (In Out : B → Type*) where
  id         : B → BrokerID
  subsystems : (b : B) → HashMap Nat (Subsystem In Out b)

namespace Net

def start (net : Net In Out) : Brokers In Out :=
  fun b => .new (net.id b) (net.subsystems b)

-- The handlers emit nothing.
def Silent (net : Net In Out) : Prop :=
  ∀ b index messages, (net.subsystems b).lookup index = some (.handler messages) →
    ∀ msgs, messages msgs = []

def Edge (net : Net In Out) (a b : B) : Prop :=
  ∃ index tr, (net.subsystems a).lookup index = some (.translator tr) ∧ tr.broker = b

-- What the translators of its broker make of a message.
def children (net : Net In Out) (m : Sent In Out) : Multiset (Sent In Out) :=
  net.start m.1 |>.translate m.2

variable [Fintype B]

-- The brokers which have not handled a message yet.
def rank (net : Net In Out) (m : Sent In Out) : Nat :=
  ((Finset.univ.image net.id).filter (· ∉ m.trail)).card

-- All forwarded messages to which a message gives rise.
def forwards (net : Net In Out) : Sent In Out → Multiset (Sent In Out) :=
  Offspring.descendants net.children net.rank

end Net

-- The message `m` comes from `e` along a path of brokers, whose ids have been added to the trail.
structure Route (net : Net In Out) (e m : Sent In Out) (path : List B) : Prop where
  head  : path.head? = some e.1
  chain : (path ++ [m.1]).IsChain net.Edge
  trail : m.trail = e.trail ++ path.map net.id
  nodup : (path.map net.id).Nodup
  fresh : e.trail.Disjoint (path.map net.id)

variable {net : Net In Out} {e m m' : Sent In Out} {path : List B}

omit [DecidableEq B] in
theorem mem_translators {i : Intern In Out b} {tr : Translator In Out b} :
    tr ∈ i.translators ↔ ∃ index, i.subsystems.lookup index = some (.translator tr) := by
  simp only [Intern.translators, List.mem_filterMap, ← HashMap.mem_values]
  constructor
  case mp =>
    intro ⟨ss, hs, h⟩
    cases ss
    case translator => exact Option.some.inj h ▸ hs
    case tap        => cases h
    case handler    => cases h
  case mpr => exact fun h => ⟨_, h, rfl⟩

omit [DecidableEq B] in
theorem mem_emitTiTo {tr : Translator In Out b} {trail : List BrokerID}
    {msgTi : Option (In tr.broker)} {msgTo : Option (Out tr.broker)}
    (h : m ∈ tr.emitTiTo trail msgTi msgTo) :
    m.1 = tr.broker ∧ m.trail = trail := by
  simp only [Translator.emitTiTo, List.mem_append, Option.mem_toList, Option.map_eq_some_iff] at h
  obtain ⟨_, _, rfl⟩ | ⟨_, _, rfl⟩ := h
  · exact ⟨rfl, rfl⟩
  · exact ⟨rfl, rfl⟩

omit [DecidableEq B] in
-- A broker adds its id to the trail, once.
theorem mem_translate {i : Intern In Out b} {msg : InternMessage In Out b}
    (h : m ∈ i.translate msg) :
    i.id ∉ msg.dst.trail ∧ m.trail = msg.dst.trail ++ [i.id] ∧
      ∃ tr ∈ i.translators, m.1 = tr.broker := by
  cases msg
  all_goals
    rw [Intern.translate] at h
    split at h
    case isTrue => cases h
    case isFalse hn =>
      have ⟨tr, ht, hm⟩ := List.mem_flatMap.mp h
      have ⟨hb, htr⟩ := mem_emitTiTo hm
      exact ⟨hn, htr, tr, ht, hb⟩

omit [DecidableEq B] in
theorem mem_children (h : m' ∈ net.children m) :
    net.id m.1 ∉ m.trail ∧ m'.trail = m.trail ++ [net.id m.1] ∧ net.Edge m.1 m'.1 := by
  have ⟨hn, ht, tr, hm, hb⟩ := mem_translate h
  have ⟨index, hl⟩ := mem_translators.mp hm
  exact ⟨hn, ht, index, tr, hl, hb.symm⟩

omit [DecidableEq B] in
theorem ranked [Fintype B] (net : Net In Out) : Offspring.Ranked net.children net.rank := by
  intro m m' h
  have ⟨hn, ht, _⟩ := mem_children h
  apply Finset.card_lt_card
  have hs : (Finset.univ.image net.id).filter (· ∉ m'.trail) ⊆
      (Finset.univ.image net.id).filter (· ∉ m.trail) := by
    intro i hi
    have ⟨hi, hm⟩ := Finset.mem_filter.mp hi
    exact Finset.mem_filter.mpr ⟨hi, fun hm' => hm <| ht ▸ List.mem_append_left _ hm'⟩
  refine Finset.ssubset_iff_of_subset hs |>.mpr ⟨net.id m.1, ?_, fun hi => ?_⟩
  · exact Finset.mem_filter.mpr ⟨Finset.mem_image_of_mem _ (Finset.mem_univ _), hn⟩
  · refine (Finset.mem_filter.mp hi).right ?_
    exact ht ▸ List.mem_append_right _ (List.mem_singleton_self _)

namespace Route

omit [DecidableEq B]

theorem single (h : m' ∈ net.children m) : Route net m m' [m.1] := by
  have ⟨hn, ht, he⟩ := mem_children h
  constructor
  case head  => rfl
  case chain => simpa using he
  case trail => exact ht
  case nodup => simp
  case fresh => simpa using hn

theorem concat (h : Route net e m path) (hm : m' ∈ net.children m) :
    Route net e m' (path ++ [m.1]) := by
  have ⟨hn, ht, he⟩ := mem_children hm
  rw [h.trail, List.mem_append, not_or] at hn
  constructor
  case head =>
    rw [List.head?_append, h.head]
    rfl
  case chain =>
    apply List.IsChain.append h.chain (List.isChain_singleton _)
    simpa using he
  case trail =>
    rw [ht, h.trail, List.map_append, List.append_assoc]
    rfl
  case nodup =>
    rw [List.map_append, List.map_singleton, ← List.concat_eq_append]
    exact h.nodup.concat hn.right
  case fresh =>
    rw [List.map_append, List.map_singleton]
    exact List.disjoint_append_right.mpr ⟨h.fresh, by simpa using hn.left⟩

theorem nodup_trail (h : Route net e m path) (he : e.trail.Nodup) : m.trail.Nodup := by
  rw [h.trail]
  exact he.append h.nodup h.fresh

end Route

omit [DecidableEq B] in
theorem exists_route (h : Relation.TransGen (fun m m' => m' ∈ net.children m) e m) :
    ∃ path, Route net e m path := by
  induction h
  case single hm => exact ⟨_, .single hm⟩
  case tail hm hi =>
    have ⟨path, h⟩ := hi
    exact ⟨_, h.concat hm⟩

omit [DecidableEq B] in
theorem exists_route_of_mem_forwards [Fintype B] (h : m ∈ net.forwards e) :
    ∃ path, Route net e m path :=
  exists_route <| (ranked net).transGen_of_mem h

namespace Intern

-- The messages which a broker has not taken yet, and those which it has to process.
def waiting (i : Intern In Out b) : Multiset (Sent In Out) :=
  .ofList <| i.mainRx.map (⟨b, ·⟩)

def queued (i : Intern In Out b) : Multiset (Sent In Out) :=
  .ofList (i.msgQueueOut.map fun p => ⟨b, .messageOut p.1 p.2⟩) +
    .ofList (i.msgQueueIn.map fun p => ⟨b, .messageIn p.1 p.2⟩)

omit [DecidableEq B]

variable {i : Intern In Out b} {msg : InternMessage In Out b}

theorem id_getMsg : (i.getMsg msg).id = i.id := by
  cases msg <;> rfl

theorem subsystems_getMsg : (i.getMsg msg).subsystems = i.subsystems := by
  cases msg <;> rfl

theorem waiting_getMsg : (i.getMsg msg).waiting = i.waiting := by
  cases msg <;> rfl

theorem queued_getMsg : (i.getMsg msg).queued = {⟨b, msg⟩} + i.queued := by
  cases msg
  all_goals
    simp only [queued, getMsg, List.map_append, List.map_singleton, ← Multiset.coe_add,
      Multiset.coe_singleton]
    ac_rfl

theorem translate_congr {i' : Intern In Out b} (hi : i.id = i'.id)
    (hs : i.subsystems = i'.subsystems) : i.translate msg = i'.translate msg := by
  cases msg <;> simp only [translate, translators, hi, hs]

theorem queued_eq_zero_iff : i.queued = 0 ↔ i.idle := by
  simp [queued, idle, and_comm]

-- What is forwarded comes from the messages of the queues.
theorem coe_processOnce (hi : i.id = net.id b) (hs : i.subsystems = net.subsystems b) :
    Multiset.ofList i.processOnce.2 = i.queued.bind net.children := by
  have ht (msg) : i.translate msg = (net.start b).translate msg := translate_congr hi hs
  simp only [processOnce, processTranslateOutMessages, processTranslateInMessages, ht, queued,
    ← Multiset.coe_add, Multiset.add_bind, ← Multiset.map_coe, Multiset.bind_map,
    ← Multiset.coe_bind]
  rfl

theorem processHandleMessages_of_silent (hn : net.Silent) (hs : i.subsystems = net.subsystems b) :
    i.processHandleMessages = [] := by
  unfold processHandleMessages
  split
  case isTrue => rfl
  case isFalse =>
    apply List.flatMap_eq_nil_iff.mpr
    intro p hp
    obtain ⟨index, ss⟩ := p
    have hl := HashMap.mem_pairs.mp hp
    cases ss
    case tap        => rfl
    case translator => rfl
    case handler messages =>
      rw [hs] at hl
      simp only [hn b index messages hl, List.map_nil]

-- Without new messages of the handlers, nothing is left to be processed.
theorem queued_processOnce (hn : net.Silent) (hs : i.subsystems = net.subsystems b) :
    i.processOnce.1.queued = 0 := by
  rw [queued_eq_zero_iff, idle, processOnce, processHandleMessages_of_silent hn hs]
  rfl

end Intern

namespace Brokers

variable [Fintype B] {s s₁ s₂ : Brokers In Out} {turn : Turn In Out} {turns : List (Turn In Out)}
  {out : List (Sent In Out)} {done : Multiset (Sent In Out)}

def waiting (s : Brokers In Out) : Multiset (Sent In Out) :=
  ∑ b, (s b).waiting

def queued (s : Brokers In Out) : Multiset (Sent In Out) :=
  ∑ b, (s b).queued

theorem sum_update (f : (b : B) → Intern In Out b → Multiset (Sent In Out)) (s : Brokers In Out)
    (b : B) (i : Intern In Out b) :
    ∑ a, f a (Function.update s b i a) + f b (s b) = ∑ a, f a (s a) + f b i := by
  rw [← Finset.add_sum_erase _ _ (Finset.mem_univ b),
    ← Finset.add_sum_erase _ _ (Finset.mem_univ b)]
  have he : ∑ a ∈ Finset.univ.erase b, f a (Function.update s b i a) =
      ∑ a ∈ Finset.univ.erase b, f a (s a) := by
    apply Finset.sum_congr rfl
    intro a ha
    rw [Function.update_of_ne (Finset.ne_of_mem_erase ha)]
  rw [he, Function.update_self]
  ac_rfl

theorem waiting_send (s : Brokers In Out) (m : Sent In Out) :
    (s.send m).waiting = s.waiting + {m} := by
  apply add_right_cancel (b := (s m.1).waiting)
  have hw : Intern.waiting { s m.1 with mainRx := (s m.1).mainRx ++ [m.2] } =
      {m} + (s m.1).waiting := by
    simp only [Intern.waiting, List.map_append, List.map_singleton, ← Multiset.coe_add,
      Multiset.coe_singleton]
    ac_rfl
  rw [waiting, send, sum_update fun _ i => i.waiting, hw, waiting, add_assoc]

theorem queued_send (s : Brokers In Out) (m : Sent In Out) : (s.send m).queued = s.queued := by
  apply add_right_cancel (b := (s m.1).queued)
  rw [queued, send, sum_update fun _ i => i.queued]
  rfl

omit [Fintype B] in
theorem frame_update {i : Intern In Out b} (hi : i.id = (s b).id)
    (hs : i.subsystems = (s b).subsystems) (a : B) :
    (Function.update s b i a).id = (s a).id ∧
      (Function.update s b i a).subsystems = (s a).subsystems := by
  by_cases ha : a = b
  case pos =>
    cases ha
    rw [Function.update_self]
    exact ⟨hi, hs⟩
  case neg =>
    rw [Function.update_of_ne ha]
    exact ⟨rfl, rfl⟩

omit [Fintype B] in
theorem frame_send (s : Brokers In Out) (m : Sent In Out) (b : B) :
    (s.send m b).id = (s b).id ∧ (s.send m b).subsystems = (s b).subsystems :=
  frame_update (i := { s m.1 with mainRx := (s m.1).mainRx ++ [m.2] }) rfl rfl b

-- What is the same after messages have been sent.
theorem foldl_send (out : List (Sent In Out)) (s : Brokers In Out) :
    (out.foldl send s).waiting = s.waiting + out ∧ (out.foldl send s).queued = s.queued ∧
      ∀ b, (out.foldl send s b).id = (s b).id ∧
        (out.foldl send s b).subsystems = (s b).subsystems := by
  induction out generalizing s
  case nil => exact ⟨(add_zero _).symm, rfl, fun b => ⟨rfl, rfl⟩⟩
  case cons m out hi =>
    have ⟨hw, hq, hb⟩ := hi (s.send m)
    refine ⟨?_, hq.trans (queued_send s m), fun b => ?_⟩
    · rw [List.foldl_cons, hw, waiting_send, add_assoc, ← Multiset.cons_coe,
        Multiset.singleton_add]
    · have ⟨hi, hs⟩ := hb b
      have ⟨hi', hs'⟩ := frame_send s m b
      exact ⟨hi.trans hi', hs.trans hs'⟩

-- All messages are accounted for: those which have been processed, those which have been taken, and
-- those which are still waiting. A broker needs a turn to take a message, and at most one more to
-- process it.
structure Accounts (net : Net In Out) (turns : List (Turn In Out)) (s : Brokers In Out)
    (out : List (Sent In Out)) (done : Multiset (Sent In Out)) : Prop where
  id         : ∀ b, (s b).id = net.id b
  subsystems : ∀ b, (s b).subsystems = net.subsystems b
  made       : Multiset.ofList out = done.bind net.children
  sent       : emissions turns + Multiset.ofList out = s.waiting + s.queued + done
  work       : turns.countP Turn.works ≤ s.queued.card + 2 * done.card

omit [DecidableEq B] in
theorem accounts_start (net : Net In Out) : net.start.Accounts net [] [] 0 where
  id _         := rfl
  subsystems _ := rfl
  made         := rfl
  work         := Nat.zero_le _
  sent         := by
    have hw : net.start.waiting = 0 := Finset.sum_eq_zero fun _ _ => rfl
    have hq : net.start.queued = 0 := Finset.sum_eq_zero fun _ _ => rfl
    rw [hw, hq]
    rfl

theorem Accounts.emit (h : s.Accounts net turns out done) (m : Sent In Out) :
    (s.send m).Accounts net (.emit m :: turns) out done where
  id b         := (frame_send s m b).left.trans (h.id b)
  subsystems b := (frame_send s m b).right.trans (h.subsystems b)
  made         := h.made
  work         := by
    rw [queued_send]
    exact h.work
  sent         := by
    have he : emissions (.emit m :: turns) = {m} + emissions turns := rfl
    rw [waiting_send, queued_send, he, add_assoc, h.sent]
    ac_rfl

theorem Accounts.getMsg {msg : InternMessage In Out b} {mainRx : List (InternMessage In Out b)}
    (h : s.Accounts net turns out done) (hr : (s b).mainRx = msg :: mainRx) :
    Accounts net (.getMsg b :: turns)
      (Function.update s b <| { s b with mainRx }.getMsg msg) out done := by
  let i := Intern.getMsg { s b with mainRx } msg
  have hw : waiting (Function.update s b i) + {⟨b, msg⟩} = s.waiting := by
    apply add_right_cancel (b := i.waiting)
    have hb : (s b).waiting = {⟨b, msg⟩} + i.waiting := by
      have hi : i.waiting = Intern.waiting { s b with mainRx } := Intern.waiting_getMsg
      rw [hi]
      simp only [Intern.waiting, hr, List.map_cons, Multiset.singleton_add, Multiset.cons_coe]
    rw [waiting, add_assoc, ← hb, sum_update fun _ i => i.waiting, waiting]
  have hq : queued (Function.update s b i) = {⟨b, msg⟩} + s.queued := by
    apply add_right_cancel (b := (s b).queued)
    have hb : i.queued = {⟨b, msg⟩} + (s b).queued := Intern.queued_getMsg
    rw [queued, sum_update fun _ i => i.queued, hb, queued]
    ac_rfl
  have hf := frame_update (s := s) (i := i) Intern.id_getMsg Intern.subsystems_getMsg
  constructor
  case id         => exact fun a => (hf a).left.trans (h.id a)
  case subsystems => exact fun a => (hf a).right.trans (h.subsystems a)
  case made       => exact h.made
  case sent =>
    have hs := h.sent
    rw [← hw] at hs
    rw [hq, ← add_assoc, hs.symm]
    rfl
  case work =>
    have := h.work
    rw [hq, List.countP_cons_of_pos rfl, Multiset.card_add, Multiset.card_singleton]
    omega

theorem Accounts.processOnce (h : s.Accounts net turns out done) (hn : net.Silent)
    (hi : (s b).idle = false) :
    Accounts net (.processOnce b :: turns)
      ((s b).processOnce.2.foldl send (Function.update s b (s b).processOnce.1))
      ((s b).processOnce.2 ++ out) ((s b).queued + done) := by
  have hw : waiting (Function.update s b (s b).processOnce.1) = s.waiting := by
    apply add_right_cancel (b := (s b).waiting)
    rw [waiting, sum_update fun _ i => i.waiting]
    rfl
  have hq : queued (Function.update s b (s b).processOnce.1) + (s b).queued = s.queued := by
    have he := (s b).queued_processOnce hn (h.subsystems b)
    rw [queued, sum_update fun _ i => i.queued, he, queued, add_zero]
  have hf := frame_update (s := s) (i := (s b).processOnce.1) rfl rfl
  have ⟨hws, hqs, hfs⟩ := foldl_send (s b).processOnce.2 (Function.update s b (s b).processOnce.1)
  constructor
  case id         => exact fun a => (hfs a).left.trans <| (hf a).left.trans (h.id a)
  case subsystems => exact fun a => (hfs a).right.trans <| (hf a).right.trans (h.subsystems a)
  case made =>
    rw [← Multiset.coe_add, Intern.coe_processOnce (h.id b) (h.subsystems b), h.made,
      Multiset.add_bind]
  case sent =>
    have hs := h.sent
    rw [← hq] at hs
    rw [hws, hqs, hw, ← Multiset.coe_add, add_left_comm]
    have he : emissions (.processOnce b :: turns) = emissions turns := rfl
    rw [he, hs]
    ac_rfl
  case work =>
    have hw := h.work
    rw [← hq, Multiset.card_add] at hw
    have hp : 0 < (s b).queued.card := by
      rw [Multiset.card_pos, ne_eq, Intern.queued_eq_zero_iff, hi]
      exact Bool.false_ne_true
    rw [hqs, List.countP_cons_of_pos rfl, Multiset.card_add]
    omega

theorem Accounts.step {out' : List (Sent In Out)} (h : s₁.Accounts net turns out done)
    (hn : net.Silent) (hs : s₁.step turn = some (s₂, out')) :
    ∃ done', s₂.Accounts net (turn :: turns) (out' ++ out) done' := by
  cases turn
  case emit m =>
    cases hs
    exact ⟨done, h.emit m⟩
  case getMsg b =>
    cases hi : (s₁ b).idle <;> cases hr : (s₁ b).mainRx <;> simp only [Brokers.step, hi, hr] at hs
    case true.cons =>
      cases hs
      exact ⟨done, h.getMsg hr⟩
    all_goals cases hs
  case processOnce b =>
    cases hi : (s₁ b).idle <;> simp only [Brokers.step, hi] at hs
    case true  => cases hs
    case false =>
      cases hs
      exact ⟨_, h.processOnce hn hi⟩

theorem Runs.accounts (h : net.start.Runs turns s out) (hn : net.Silent) :
    ∃ done, s.Accounts net turns out done := by
  induction h
  case start => exact ⟨0, accounts_start net⟩
  case step hs hi =>
    have ⟨_, ha⟩ := hi
    exact ha.step hn hs

omit [Fintype B] in
-- A broker with messages has a turn.
theorem exists_turn (h : (s b).idle = false ∨ (s b).mainRx ≠ []) :
    ∃ turn : Turn In Out, turn.works ∧ s.step turn ≠ none := by
  cases hi : (s b).idle
  case false => exact ⟨.processOnce b, rfl, by simp [step, hi]⟩
  case true =>
    cases hr : (s b).mainRx
    case nil  => exact (h.elim (by simp [hi]) (· hr)).elim
    case cons => exact ⟨.getMsg b, rfl, by simp [step, hi, hr]⟩

theorem eq_zero_of_stuck (h : ∀ turn : Turn In Out, turn.works → s.step turn = none) :
    s.waiting + s.queued = 0 := by
  have hb (b : B) : (s b).idle ∧ (s b).mainRx = [] := by
    by_contra hb
    have hm : (s b).idle = false ∨ (s b).mainRx ≠ [] := by
      simpa [Decidable.or_iff_not_imp_left] using hb
    have ⟨turn, hw, hs⟩ := exists_turn hm
    exact hs <| h turn hw
  have hw : s.waiting = 0 := Finset.sum_eq_zero fun b _ => by simp [Intern.waiting, (hb b).right]
  have hq : s.queued = 0 := Finset.sum_eq_zero fun b _ => Intern.queued_eq_zero_iff.mpr (hb b).left
  rw [hw, hq, add_zero]

-- The messages which are emitted give rise to finitely many forwarded ones, and each of them comes
-- along a path of brokers. The brokers come to an end, and then all of these have been forwarded.
theorem Runs.forwarding (h : net.start.Runs turns s out) (hn : net.Silent) :
    Multiset.ofList out + (s.waiting + s.queued).bind net.forwards =
      (emissions turns).bind net.forwards ∧
    turns.countP Turn.works ≤
      2 * ((emissions turns).card + ((emissions turns).bind net.forwards).card) ∧
    ((∀ turn, turn.works → s.step turn = none) →
      Multiset.ofList out = (emissions turns).bind net.forwards) ∧
    ∀ m ∈ out, ∃ e ∈ emissions turns, m ∈ net.forwards e ∧
      ∃ path, Route net e m path ∧ (e.trail.Nodup → m.trail.Nodup) := by
  have ⟨done, ha⟩ := h.accounts hn
  have hf : Multiset.ofList out + (s.waiting + s.queued).bind net.forwards =
      (emissions turns).bind net.forwards :=
    (ranked net).bind_descendants ha.made ha.sent |>.symm
  refine ⟨hf, ?_, fun hs => ?_, fun m hm => ?_⟩
  case refine_1 =>
    have hw := ha.work
    have hs := congrArg Multiset.card ha.sent
    have hc := congrArg Multiset.card hf
    simp only [Multiset.card_add] at hs hc
    omega
  case refine_2 => rw [← hf, eq_zero_of_stuck hs, Multiset.zero_bind, add_zero]
  case refine_3 =>
    have hm : m ∈ (emissions turns).bind net.forwards := by
      rw [← hf]
      exact Multiset.mem_add.mpr <| .inl hm
    have ⟨e, he, hm⟩ := Multiset.mem_bind.mp hm
    have ⟨path, hp⟩ := exists_route_of_mem_forwards hm
    exact ⟨e, he, hm, path, hp, hp.nodup_trail⟩

end Brokers

section Concrete

open Forwarding.Brokers

-- Two brokers in a ring: what comes out of the first goes into the second, and what comes into the
-- second comes out of the first.
def ringTranslator : (b : Bool) → Translator (fun _ : Bool => Nat) (fun _ => Nat) b
  | false =>
    { broker := true, translateFnITi := none, translateFnITo := none,
      translateFnOTi := some some, translateFnOTo := none }
  | true =>
    { broker := false, translateFnITi := none, translateFnITo := some some,
      translateFnOTi := none, translateFnOTo := none }

def ring : Net (fun _ : Bool => Nat) (fun _ => Nat) where
  id b         := U256.ofPrefix [if b then 1 else 0]
  subsystems b := (∅ : HashMap Nat _).insert 1 <| .translator (ringTranslator b)

def ringTurns : List (Turn (fun _ : Bool => Nat) (fun _ => Nat)) :=
  [.processOnce false, .getMsg false, .processOnce true, .getMsg true, .processOnce false,
    .getMsg false, .emit ⟨false, .messageOut .all 7⟩]

theorem silent_ring : ring.Silent := by
  intro b index messages h
  rw [ring, HashMap.lookup_insert_eq] at h
  split at h
  case isTrue  => cases h
  case isFalse => cases h

-- The message is dropped when it comes back.
theorem forwarding_ring :
    ∃ s out, ring.start.Runs ringTurns s out ∧ out.length = 2 ∧
      Multiset.ofList out = (emissions ringTurns).bind ring.forwards := by
  have h : ring.start.Runs ringTurns _ _ :=
    .step (.step (.step (.step (.step (.step (.step .start rfl) rfl) rfl) rfl) rfl) rfl) rfl
  refine ⟨_, _, h, by rfl, (Runs.forwarding h silent_ring).2.2.1 fun turn hw => ?_⟩
  cases turn
  case emit        => cases hw
  case getMsg b    => cases b <;> rfl
  case processOnce b => cases b <;> rfl

end Concrete

end Forwarding
