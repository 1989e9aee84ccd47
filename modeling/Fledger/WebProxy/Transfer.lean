import Mathlib.Tactic.Abel
import Fledger.Lib.Bag
import Fledger.Lib.Commuting
import Fledger.WebProxy.Core

namespace WebProxy

-- `channel(128)`.
def capacity : Nat :=
  128

-- The bodies of one request: those of the tasks which have not run yet, which wait for room (in
-- this order), and which have got room, those in the channel, and those which have been read.
structure Transfer (Tx : Type*) where
  nonce   : U256
  core    : WebProxyCore Tx
  spawned : List Bytes
  waiting : List Bytes
  granted : List Bytes
  queue   : List Bytes
  read    : List Bytes

-- A message arrives, one of the tasks runs, the first which waits gets room, or `chunk` returns.
inductive Act
  | arrive (msg : ResponseMessage)
  | poll (k : Nat)
  | grant
  | send (k : Nat)
  | recv

-- What comes for a request which succeeds.
def chunked (chunks : List Bytes) : List ResponseMessage :=
  chunks.map .body ++ [.done]

def Act.message : Act → Option ResponseMessage
  | .arrive msg => some msg
  | _           => none

namespace Transfer

variable {Tx : Type*}

def start (nonce : U256) (core : WebProxyCore Tx) : Transfer Tx where
  nonce   := nonce
  core    := core
  spawned := []
  waiting := []
  granted := []
  queue   := []
  read    := []

def step (s : Transfer Tx) : Act → Option (Transfer Tx)
  | .arrive msg =>
    let h := s.core.handleResponse s.nonce msg
    some { s with core := h.core, spawned := s.spawned ++ h.spawned.toList.map Prod.snd }
  | .poll k     => s.spawned[k]?.map fun body =>
    { s with spawned := s.spawned.eraseIdx k, waiting := s.waiting ++ [body] }
  | .grant      =>
    match s.waiting with
    | body :: waiting =>
      if s.granted.length + s.queue.length < capacity
      then some { s with waiting, granted := s.granted ++ [body] }
      else none
    | []              => none
  | .send k     => s.granted[k]?.map fun body =>
    { s with granted := s.granted.eraseIdx k, queue := s.queue ++ [body] }
  | .recv       =>
    match s.queue with
    | body :: queue => some { s with queue, read := s.read ++ [body] }
    | []            => none

def run (s : Transfer Tx) : List Act → Option (Transfer Tx)
  | []        => some s
  | a :: acts => (s.step a).bind fun s => s.run acts

-- All senders have been dropped: the one of the table, and those of the tasks.
def closed (s : Transfer Tx) : Bool :=
  (s.core.requests.lookup s.nonce).isNone && s.spawned.isEmpty && s.waiting.isEmpty &&
    s.granted.isEmpty

-- What `Response::bytes` returns, as soon as it does.
def bytes (s : Transfer Tx) : Option Bytes :=
  if s.closed && s.queue.isEmpty then some s.read.flatten else none

-- Neither a task nor the reader can go on.
def Stuck (s : Transfer Tx) : Prop :=
  ∀ a, a.message = none → s.step a = none

-- However the bodies are scheduled, they are read after some time, and in the order of arrival.
def Intact (core : WebProxyCore Tx) (nonce : U256) (chunks : List Bytes) : Prop :=
  ∀ acts s, (start nonce core).run acts = some s →
    acts.filterMap Act.message = chunked chunks →
    acts.length ≤ 5 * chunks.length + 1 ∧ (s.Stuck → s.bytes = some chunks.flatten)

-- The bodies which are on their way, or have been read.
def all (s : Transfer Tx) : Multiset Bytes :=
  s.read + s.queue + s.granted + s.waiting + s.spawned

-- How often the tasks and the reader have to be scheduled.
def weight (s : Transfer Tx) : Nat :=
  4 * s.spawned.length + 3 * s.waiting.length + 2 * s.granted.length + s.queue.length

-- What a series of messages makes of the core, and the bodies for which it spawns tasks.
def arrive (nonce : U256) (core : WebProxyCore Tx) :
    List ResponseMessage → WebProxyCore Tx × List Bytes
  | []          => (core, [])
  | msg :: msgs =>
    let h              := core.handleResponse nonce msg
    let (core, bodies) := arrive nonce h.core msgs
    (core, h.spawned.toList.map Prod.snd ++ bodies)

variable {s s' : Transfer Tx} {a : Act} {acts : List Act} {core : WebProxyCore Tx} {nonce : U256}
  {chunks : List Bytes} {node : NodeID} {tx : Tx}

-- All steps but the arrivals move one body, and bring it nearer to the reader.
structure Moves (s s' : Transfer Tx) : Prop where
  nonce  : s'.nonce = s.nonce
  core   : s'.core = s.core
  all    : s'.all = s.all
  weight : s'.weight + 1 = s.weight

theorem moves_step (h : s.step a = some s') (ha : a.message = none) : s.Moves s' := by
  cases a
  case arrive          => cases ha
  case poll k | send k =>
    obtain ⟨body, hb, rfl⟩ := Option.map_eq_some_iff.mp h
    refine ⟨rfl, rfl, ?_, ?_⟩
    case refine_1 =>
      rw [all, all, Bag.coe_eraseIdx hb, Bag.coe_concat]
      abel
    case refine_2 =>
      have hl := Bag.length_eraseIdx hb
      simp only [weight, List.length_append, List.length_singleton]
      omega
  case grant =>
    rw [step] at h
    split at h
    case h_2 => cases h
    case h_1 body waiting hw =>
      split at h
      case isFalse => cases h
      case isTrue  =>
        cases h
        refine ⟨rfl, rfl, ?_, ?_⟩
        case refine_1 =>
          rw [all, all, hw, Bag.coe_concat, ← Multiset.cons_coe, ← Multiset.singleton_add]
          abel
        case refine_2 =>
          simp only [weight, hw, List.length_append, List.length_cons, List.length_nil]
          omega
  case recv =>
    rw [step] at h
    split at h
    case h_2 => cases h
    case h_1 body queue hq =>
      cases h
      refine ⟨rfl, rfl, ?_, ?_⟩
      case refine_1 =>
        rw [all, all, hq, Bag.coe_concat, ← Multiset.cons_coe, ← Multiset.singleton_add]
        abel
      case refine_2 =>
        simp only [weight, hq, List.length_cons]
        omega

-- What the whole run does, from the messages which arrive.
structure Reaches (s : Transfer Tx) (acts : List Act) (s' : Transfer Tx) : Prop where
  nonce  : s'.nonce = s.nonce
  core   : s'.core = (arrive s.nonce s.core <| acts.filterMap Act.message).1
  all    : s'.all = s.all + (arrive s.nonce s.core <| acts.filterMap Act.message).2
  weight : acts.length + s'.weight = s.weight + (acts.filterMap Act.message).length +
    4 * (arrive s.nonce s.core <| acts.filterMap Act.message).2.length

theorem reaches_run (h : s.run acts = some s') : s.Reaches acts s' := by
  induction acts generalizing s
  case nil =>
    cases h
    exact ⟨rfl, rfl, (add_zero _).symm, Nat.zero_add _⟩
  case cons a acts hi =>
    obtain ⟨s₁, h₁, h⟩ := Option.bind_eq_some_iff.mp h
    have hr := hi h
    cases a
    case arrive msg =>
      cases h₁
      have hm : (Act.arrive msg :: acts).filterMap Act.message =
          msg :: acts.filterMap Act.message :=
        rfl
      refine ⟨hr.nonce, hr.core, ?_, ?_⟩
      case refine_1 =>
        rw [hr.all, hm]
        simp only [Transfer.all, arrive, ← Multiset.coe_add]
        abel
      case refine_2 =>
        have hw := hr.weight
        rw [hm]
        simp only [Transfer.weight, arrive, List.length_append, List.length_cons] at hw ⊢
        omega
    all_goals
      have hm := moves_step h₁ rfl
      refine ⟨hr.nonce.trans hm.nonce, ?_, ?_, ?_⟩
      case refine_1 => rw [hr.core, hm.nonce, hm.core, List.filterMap_cons_none rfl]
      case refine_2 => rw [hr.all, hm.nonce, hm.core, hm.all, List.filterMap_cons_none rfl]
      case refine_3 =>
        have hw := hr.weight
        rw [hm.nonce, hm.core] at hw
        rw [List.filterMap_cons_none rfl, List.length_cons, ← hm.weight]
        omega

theorem run_append {acts' : List Act} :
    s.run (acts ++ acts') = (s.run acts).bind fun s => s.run acts' := by
  induction acts generalizing s
  case nil => rfl
  case cons hi =>
    rw [List.cons_append, run, run, Option.bind_assoc]
    exact congrArg _ <| funext fun _ => hi

theorem run_arrive (msgs : List ResponseMessage) :
    s.run (msgs.map .arrive) = some { s with
      core    := (arrive s.nonce s.core msgs).1
      spawned := s.spawned ++ (arrive s.nonce s.core msgs).2 } := by
  induction msgs generalizing s
  case nil => simp [run, arrive]
  case cons msg msgs hi =>
    rw [List.map_cons, run, step, Option.bind_some, hi, arrive]
    simp only [List.append_assoc]

-- Any one of the tasks can be the next whose body is read.
theorem run_read {k : Nat} {body : Bytes} (hw : s.waiting = []) (hg : s.granted = [])
    (hq : s.queue = []) (hb : s.spawned[k]? = some body) :
    s.run [.poll k, .grant, .send 0, .recv] =
      some { s with spawned := s.spawned.eraseIdx k, read := s.read ++ [body] } := by
  cases s
  cases hw
  cases hg
  cases hq
  simp only at hb
  simp [run, step, hb, capacity]

theorem exists_run_perm (hw : s.waiting = []) (hg : s.granted = []) (hq : s.queue = [])
    {bodies : List Bytes} (hp : bodies.Perm s.spawned) :
    ∃ acts, acts.filterMap Act.message = [] ∧
      s.run acts = some { s with spawned := [], read := s.read ++ bodies } := by
  induction bodies generalizing s
  case nil =>
    refine ⟨[], rfl, ?_⟩
    rw [run, List.append_nil, ← List.nil_perm.mp hp]
  case cons body bodies hi =>
    obtain ⟨k, hk⟩ := List.getElem?_of_mem <| hp.mem_iff.mp List.mem_cons_self
    have hr := run_read hw hg hq hk
    generalize hs : { s with
      spawned := s.spawned.eraseIdx k, read := s.read ++ [body] : Transfer Tx } = s₁ at hr
    have he : bodies.Perm s₁.spawned := by
      subst hs
      have hc := Bag.coe_eraseIdx hk
      rw [← Multiset.coe_eq_coe.mpr hp, ← Multiset.cons_coe, ← Multiset.singleton_add] at hc
      exact Multiset.coe_eq_coe.mp <| add_left_cancel hc
    obtain ⟨acts, ha, h⟩ := hi (s := s₁) (hs ▸ hw) (hs ▸ hg) (hs ▸ hq) he
    refine ⟨[.poll k, .grant, .send 0, .recv] ++ acts, ha, ?_⟩
    rw [run_append, hr, Option.bind_some, h, ← hs]
    simp only [List.append_assoc, List.singleton_append]

-- The bodies can be read in every order, after all messages have arrived.
theorem exists_run_read {msgs : List ResponseMessage} {bodies : List Bytes}
    (hp : bodies.Perm (arrive nonce core msgs).2) :
    ∃ acts, acts.filterMap Act.message = msgs ∧ (start nonce core).run acts =
      some { start nonce (arrive nonce core msgs).1 with read := bodies } := by
  have ha := run_arrive (s := start nonce core) msgs
  obtain ⟨acts, hm, hr⟩ := exists_run_perm (s := { start nonce (arrive nonce core msgs).1 with
    spawned := (arrive nonce core msgs).2 }) rfl rfl rfl hp
  refine ⟨msgs.map .arrive ++ acts, ?_, ?_⟩
  case refine_1 =>
    rw [List.filterMap_append, hm, List.append_nil, List.filterMap_map]
    exact List.filterMap_some
  case refine_2 =>
    rw [run_append, ha]
    exact hr

-- Whoever is left could go on.
theorem Stuck.empty (h : s.Stuck) :
    s.spawned = [] ∧ s.waiting = [] ∧ s.granted = [] ∧ s.queue = [] := by
  have hs : s.spawned = [] := by
    have hp := Option.map_eq_none_iff.mp <| h (.poll 0) rfl
    exact List.length_eq_zero_iff.mp <| Nat.le_zero.mp <| List.getElem?_eq_none_iff.mp hp
  have hg : s.granted = [] := by
    have hp := Option.map_eq_none_iff.mp <| h (.send 0) rfl
    exact List.length_eq_zero_iff.mp <| Nat.le_zero.mp <| List.getElem?_eq_none_iff.mp hp
  have hq : s.queue = [] := by
    have hp := h .recv rfl
    rw [step] at hp
    split at hp
    case h_1    => cases hp
    case h_2 hq => exact hq
  have hw : s.waiting = [] := by
    have hp := h .grant rfl
    rw [step] at hp
    split at hp
    case h_1    => simp [hg, hq, capacity] at hp
    case h_2 hw => exact hw
  exact ⟨hs, hw, hg, hq⟩

theorem stuck_of_empty (hs : s.spawned = []) (hw : s.waiting = []) (hg : s.granted = [])
    (hq : s.queue = []) : s.Stuck := by
  intro a ha
  cases a
  case arrive => cases ha
  all_goals simp [step, hs, hw, hg, hq]

-- The bodies which come for a pending request are all handed to tasks, until it is done.
theorem arrive_bodies (h : core.requests.lookup nonce = some (node, tx)) :
    (arrive nonce core <| chunked chunks).1.requests.lookup nonce = none ∧
      (arrive nonce core <| chunked chunks).2 = chunks := by
  induction chunks generalizing core
  case nil            => simp [chunked, arrive, WebProxyCore.handleResponse, h]
  case cons chunk _ hi =>
    have hb : core.handleResponse nonce (.body chunk) =
        ⟨{ core with storage := core.storage.receivePacket }, none, some (tx, chunk)⟩ := by
      rw [WebProxyCore.handleResponse, h]
    obtain ⟨hd, hi⟩ := @hi { core with storage := core.storage.receivePacket } h
    rw [chunked, List.map_cons, List.cons_append, arrive, hb]
    exact ⟨hd, congrArg _ hi⟩

-- `bytes` gets the bodies in order, if and only if they can be exchanged with each other.
theorem intact_iff (h : core.requests.lookup nonce = some (node, tx)) (chunks : List Bytes) :
    Intact core nonce chunks ↔ chunks.Pairwise fun a b => a ++ b = b ++ a := by
  obtain ⟨hd, hb⟩ : (arrive nonce core <| chunked chunks).1.requests.lookup nonce = none ∧ _ :=
    arrive_bodies h
  rw [← Commuting.flatten_eq_iff]
  constructor
  case mpr =>
    intro hf acts s hr ha
    have hr := reaches_run hr
    have hw := hr.weight
    have hp := hr.all
    rw [ha, start, hb] at hw hp
    simp only [weight, chunked, List.length_append, List.length_map, List.length_nil,
      List.length_singleton] at hw
    refine ⟨by omega, fun hs => ?_⟩
    obtain ⟨h₁, h₂, h₃, h₄⟩ := hs.empty
    simp only [all, h₁, h₂, h₃, h₄, Multiset.coe_nil, add_zero, zero_add] at hp
    have hl : s.core.requests.lookup s.nonce = none := by
      rw [hr.core, hr.nonce, ha]
      exact hd
    have hc : s.closed := by simp [closed, hl, h₁, h₂, h₃]
    simp [bytes, hc, h₄, hf s.read (Multiset.coe_eq_coe.mp hp)]
  case mp =>
    intro hi bodies hp
    obtain ⟨acts, ha, hr⟩ := exists_run_read (hb.symm ▸ hp)
    have hs := (hi acts _ hr ha).right <| stuck_of_empty rfl rfl rfl rfl
    simpa [bytes, closed, start, hd] using hs

end Transfer

section Concrete

def halvesNonce : U256 :=
  .ofPrefix [1]

def halvesCore : WebProxyCore Unit where
  storage   := .default
  nodes     := [.ofPrefix [3]]
  ourId     := .ofPrefix [2]
  nodeIndex := 1
  requests  := AList.insert halvesNonce (.ofPrefix [3], ()) ∅

-- The task of the second body is the first which runs.
def secondFirst : List Act :=
  (chunked [[1], [2]]).map .arrive ++
    [.poll 1, .grant, .send 0, .recv, .poll 0, .grant, .send 0, .recv]

theorem not_intact : ¬Transfer.Intact halvesCore halvesNonce [[1], [2]] := by
  intro h
  have hr := (h secondFirst _ rfl rfl).right <| Transfer.stuck_of_empty rfl rfl rfl rfl
  revert hr
  decide +kernel

theorem intact_halves :
    Transfer.Intact halvesCore halvesNonce [[1], [1]] ↔
      List.Pairwise (fun a b : Bytes => a ++ b = b ++ a) [[1], [1]] :=
  Transfer.intact_iff (AList.lookup_insert ∅) [[1], [1]]

end Concrete

end WebProxy
