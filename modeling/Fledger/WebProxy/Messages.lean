import Fledger.Network.Nodeconfig
import Fledger.WebProxy.Core

namespace WebProxy

inductive ModuleMessage
  | request (nonce : U256) (url : String)
  | response (nonce : U256) (msg : ResponseMessage)
deriving DecidableEq

inductive WebProxyIn (Tx : Type*)
  | fromNetwork (src : NodeID) (msg : ModuleMessage)
  | nodeInfoConnected (ids : List NodeInfo)
  | requestGet (rnd : U256) (url : String) (tx : Tx)

inductive WebProxyOut
  | toNetwork (node : NodeID) (msg : ModuleMessage)
  | responseGet (proxy : NodeID) (nonce : U256) (header : ResponseHeader)
deriving DecidableEq

-- The tasks which are spawned: one asks the web server, one hands over a body.
inductive Task (Tx : Type*)
  | fetch (src : NodeID) (nonce : U256) (request : String)
  | send (tx : Tx) (body : Bytes)

structure Messages (Tx : Type*) where
  core : WebProxyCore Tx

structure Outcome (Tx : Type*) where
  messages : Messages Tx
  out      : List WebProxyOut
  spawned  : List (Task Tx)

namespace Messages

variable {Tx : Type*}

def new (storage : WebProxyStorage) (ourId : NodeID) : Messages Tx where
  core := .new storage ourId

-- A malformed key makes it panic.
def nodeList (m : Messages Tx) (nodes : List NodeInfo) : Option (Outcome Tx) :=
  let nodes := nodes.filter (Modules.contains ·.modules Modules.webproxyRequests)
  (nodes.mapM NodeInfo.getId).map fun ids =>
    { messages := { core := m.core.nodeList ids }, out := [], spawned := [] }

def requestGet (m : Messages Tx) (rnd : U256) (url : String) (tx : Tx) : Outcome Tx :=
  let (core, node) := m.core.requestGet rnd tx
  { messages := { core }
    out      := node.toList.map (.toNetwork · (.request rnd url))
    spawned  := [] }

def startRequest (m : Messages Tx) (src : NodeID) (nonce : U256) (request : String) : Outcome Tx :=
  { messages := m, out := [], spawned := [.fetch src nonce request] }

def handleResponse (m : Messages Tx) (src : NodeID) (nonce : U256) (msg : ResponseMessage) :
    Outcome Tx :=
  let h := m.core.handleResponse nonce msg
  { messages := { core := h.core }
    out      := h.header.toList.map (.responseGet src nonce)
    spawned  := h.spawned.toList.map fun s => .send s.1 s.2 }

def processNodeMessage (m : Messages Tx) (src : NodeID) : ModuleMessage → Outcome Tx
  | .request nonce request => m.startRequest src nonce request
  | .response nonce msg    => m.handleResponse src nonce msg

def processMessage (m : Messages Tx) : WebProxyIn Tx → Option (Outcome Tx)
  | .fromNetwork src msg   => some (m.processNodeMessage src msg)
  | .nodeInfoConnected ids => m.nodeList ids
  | .requestGet rnd url tx => some (m.requestGet rnd url tx)

def processMessages (m : Messages Tx) : List (WebProxyIn Tx) → Option (Outcome Tx)
  | []          => some { messages := m, out := [], spawned := [] }
  | msg :: msgs => do
    let o  ← m.processMessage msg
    let o' ← o.messages.processMessages msgs
    some { messages := o'.messages, out := o.out ++ o'.out, spawned := o.spawned ++ o'.spawned }

end Messages

namespace Task

-- A chunk which cannot be read makes the task panic.
def stream : List (Option Bytes) → List ResponseMessage
  | []                => [.done, .done]
  | some chunk :: chs => .body chunk :: stream chs
  | none :: _         => []

-- The responses to what `reqwest::get` gives.
def responses : Except String (ResponseHeader × List (Option Bytes)) → List ResponseMessage
  | .ok (header, chunks) => .header header :: stream chunks
  | .error err           => [.error err]

-- What the task emits.
def run {Tx : Type*} (resp : Except String (ResponseHeader × List (Option Bytes))) :
    Task Tx → List WebProxyOut
  | .fetch src nonce _ => (responses resp).map fun r => .toNetwork src (.response nonce r)
  | .send _ _          => []

-- An honest proxy only repeats what ends its response.
theorem stream_final {chunks : List (Option Bytes)} {r : ResponseMessage}
    {before after : List ResponseMessage} (h : stream chunks = before ++ r :: after)
    (hr : r.Final) : ∀ a ∈ after, a = .done := by
  induction chunks generalizing before
  case nil =>
    intro a ha
    have hm : a ∈ stream [] := h ▸ List.mem_append_right before (List.mem_cons_of_mem r ha)
    simpa [stream] using hm
  case cons chunk chs hi =>
    cases chunk
    case none => cases before <;> cases h
    case some =>
      cases before
      case nil =>
        cases h
        cases hr
      case cons => exact hi (List.cons.inj h).right

theorem responses_final {resp : Except String (ResponseHeader × List (Option Bytes))}
    {r : ResponseMessage} {before after : List ResponseMessage}
    (h : responses resp = before ++ r :: after) (hr : r.Final) : ∀ a ∈ after, a = .done := by
  cases resp
  case ok p =>
    cases before
    case nil =>
      cases h
      cases hr
    case cons => exact stream_final (List.cons.inj h).right hr
  case error =>
    have hl := congrArg List.length h
    rw [List.length_append, List.length_cons, responses, List.length_singleton] at hl
    have ha : after = [] := List.eq_nil_of_length_eq_zero (by omega)
    simp [ha]

end Task

-- One message of a run, and what came of it.
structure Event (Tx : Type*) where
  before  : Messages Tx
  msg     : WebProxyIn Tx
  outcome : Outcome Tx

-- All runs, the last message first.
inductive Runs {Tx : Type*} : List (Event Tx) → Messages Tx → Prop
  | start (storage ourId) : Runs [] (.new storage ourId)
  | step {history m msg o} :
    Runs history m → m.processMessage msg = some o → Runs (⟨m, msg, o⟩ :: history) o.messages

def WebProxyOut.requestTo (nonce : U256) : WebProxyOut → Option NodeID
  | .toNetwork node (.request n _) => if n = nonce then some node else none
  | _                              => none

namespace Event

variable {Tx : Type*}

def Effect (e : Event Tx) : Prop :=
  e.outcome.messages ≠ e.before ∨ e.outcome.out ≠ [] ∨ e.outcome.spawned ≠ []

-- The node of the last request with the nonce.
def sentTo (nonce : U256) : List (Event Tx) → Option NodeID
  | []     => none
  | e :: h => (e.outcome.out.findSome? (WebProxyOut.requestTo nonce)).or (sentTo nonce h)

-- The node of the request says that there is no more to come.
def Ends (nonce : U256) (e : Event Tx) : Prop :=
  ∃ src r tx, e.msg = .fromNetwork src (.response nonce r) ∧ r.Final ∧
    e.before.core.requests.lookup nonce = some (src, tx)

-- Only the node of a request has an effect with its responses, and only until it ends them.
def Lifecycle : List (Event Tx) → Prop
  | []     => True
  | e :: h => Lifecycle h ∧ ∀ src nonce r, e.msg = .fromNetwork src (.response nonce r) → e.Effect →
    sentTo nonce h = some src ∧ ∀ e' ∈ h, ¬Ends nonce e'

-- Nothing but errors comes for a pending request from other nodes, or after the end.
def Regular : List (Event Tx) → Prop
  | []     => True
  | e :: h => Regular h ∧ ∀ src nonce r node tx, e.msg = .fromNetwork src (.response nonce r) →
    (∀ err, r ≠ .error err) → e.before.core.requests.lookup nonce = some (node, tx) →
    src = node ∧ ∀ e' ∈ h, ¬Ends nonce e'

end Event

section Lifecycle

variable {Tx : Type*} {history : List (Event Tx)} {m : Messages Tx} {msg : WebProxyIn Tx}
  {o : Outcome Tx} {src node : NodeID} {nonce : U256} {r : ResponseMessage} {tx : Tx}

namespace Messages

theorem requests_of_nodeList {ids : List NodeInfo} (h : m.nodeList ids = some o) :
    o.messages.core.requests = m.core.requests ∧ o.out = [] := by
  obtain ⟨_, _, rfl⟩ := Option.map_eq_some_iff.mp h
  exact ⟨rfl, rfl⟩

-- What is pending after a message has just been sent to its node, or it was pending before.
theorem lookup_requestGet {rnd : U256} {url : String} {t : Tx}
    (h : (m.requestGet rnd url t).messages.core.requests.lookup nonce = some (node, tx)) :
    (m.requestGet rnd url t).out.findSome? (WebProxyOut.requestTo nonce) = some node ∨
      (m.requestGet rnd url t).out.findSome? (WebProxyOut.requestTo nonce) = none ∧
        m.core.requests.lookup nonce = some (node, tx) := by
  rw [requestGet] at h ⊢
  cases hg : m.core.getNode.2
  case none =>
    rw [WebProxyCore.requestGet_of_none hg] at h ⊢
    exact .inr ⟨rfl, WebProxyCore.requests_getNode ▸ h⟩
  case some n =>
    rw [WebProxyCore.requestGet_of_some hg] at h ⊢
    replace h := (HashMap.lookup_insert_eq nonce rnd (n, t)).symm.trans h
    split at h
    case isTrue hn =>
      cases h
      exact .inl (by simp [WebProxyOut.requestTo, hn])
    case isFalse hn => exact .inr ⟨by simp [WebProxyOut.requestTo, Ne.symm hn], h⟩

theorem lookup_processMessage (hp : m.processMessage msg = some o)
    (h : o.messages.core.requests.lookup nonce = some (node, tx)) :
    o.out.findSome? (WebProxyOut.requestTo nonce) = some node ∨
      o.out.findSome? (WebProxyOut.requestTo nonce) = none ∧
        m.core.requests.lookup nonce = some (node, tx) := by
  cases msg
  case nodeInfoConnected ids =>
    have hm := requests_of_nodeList hp
    exact .inr ⟨by rw [hm.right, List.findSome?_nil], hm.left ▸ h⟩
  case requestGet rnd url t =>
    cases hp
    exact lookup_requestGet h
  case fromNetwork src msg =>
    cases hp
    cases msg
    case request n url  => exact .inr ⟨rfl, h⟩
    case response n msg =>
      refine .inr ⟨?_, WebProxyCore.lookup_handleResponse h⟩
      simp [processNodeMessage, handleResponse, WebProxyOut.requestTo]

-- The responses to a pending request have an effect, except for an error.
theorem effect_handleResponse :
    ((m.handleResponse src nonce r).messages ≠ m ∨ (m.handleResponse src nonce r).out ≠ [] ∨
      (m.handleResponse src nonce r).spawned ≠ []) ↔
    (∀ err, r ≠ .error err) ∧ ∃ node tx, m.core.requests.lookup nonce = some (node, tx) := by
  constructor
  case mp =>
    intro h
    cases hl : m.core.requests.lookup nonce
    case none =>
      simp [handleResponse, WebProxyCore.handleResponse_of_none hl] at h
    case some p =>
      refine ⟨?_, p.1, p.2, rfl⟩
      rintro err rfl
      simp [handleResponse, WebProxyCore.handleResponse_error] at h
  case mpr =>
    rintro ⟨hr, node, tx, hl⟩
    refine .inl fun h => ?_
    exact WebProxyCore.handleResponse_of_some hl hr <| congrArg core h

end Messages

-- What is pending has been sent to the node which the table has for it.
theorem Runs.sentTo_of_lookup (h : Runs history m)
    (hl : m.core.requests.lookup nonce = some (node, tx)) :
    Event.sentTo nonce history = some node := by
  induction h generalizing node tx
  case start => cases hl
  case step hr hp hi =>
    rw [Event.sentTo, Option.or_eq_some_iff]
    exact (Messages.lookup_processMessage hp hl).imp_right fun h => ⟨h.left, hi h.right⟩

theorem effect_response {e : Event Tx} (hp : e.before.processMessage e.msg = some e.outcome)
    (hm : e.msg = .fromNetwork src (.response nonce r)) :
    e.Effect ↔ (∀ err, r ≠ .error err) ∧
      ∃ node tx, e.before.core.requests.lookup nonce = some (node, tx) := by
  rw [hm] at hp
  rw [Event.Effect, ← Option.some.inj hp]
  exact Messages.effect_handleResponse

-- The responses of a run have effects as they should, if and only if those which arrive are
-- regular.
theorem Runs.lifecycle_iff (h : Runs history m) :
    Event.Lifecycle history ↔ Event.Regular history := by
  induction h
  case start => exact Iff.rfl
  case step history m msg o hr hp hi =>
    rw [Event.Lifecycle, Event.Regular, hi]
    refine and_congr_right fun _ => ?_
    constructor
    case mp =>
      intro hl src nonce r node tx hm hn ht
      have h := hl src nonce r hm <| effect_response hp hm |>.mpr ⟨hn, node, tx, ht⟩
      rw [hr.sentTo_of_lookup ht] at h
      exact ⟨Option.some.inj h.left.symm, h.right⟩
    case mpr =>
      intro hl src nonce r hm he
      obtain ⟨hn, node, tx, ht⟩ := effect_response hp hm |>.mp he
      have h := hl src nonce r node tx hm hn ht
      exact ⟨h.left ▸ hr.sentTo_of_lookup ht, h.right⟩

-- The messages of a batch are processed one after the other.
theorem Runs.processMessages {msgs : List (WebProxyIn Tx)} (h : Runs history m)
    (hp : m.processMessages msgs = some o) :
    ∃ events, events.map Event.msg = msgs.reverse ∧ Runs (events ++ history) o.messages := by
  induction msgs generalizing history m o
  case nil =>
    cases hp
    exact ⟨[], rfl, h⟩
  case cons msg msgs hi =>
    obtain ⟨o₁, h₁, hp⟩ := Option.bind_eq_some_iff.mp hp
    obtain ⟨o₂, h₂, hp⟩ := Option.bind_eq_some_iff.mp hp
    cases hp
    obtain ⟨events, he, h⟩ := hi (h.step h₁) h₂
    refine ⟨events ++ [⟨m, msg, o₁⟩], by simp [he], ?_⟩
    rwa [List.append_assoc]

-- A node never asks itself.
theorem Runs.ourId_notMem (h : Runs history m) : m.core.ourId ∉ m.core.nodes := by
  induction h
  case start => exact List.not_mem_nil
  case step m msg o _ hp hi =>
    cases msg
    case nodeInfoConnected ids =>
      obtain ⟨ids, _, rfl⟩ := Option.map_eq_some_iff.mp hp
      exact fun h => WebProxyCore.mem_nodes_nodeList.mp h |>.right rfl
    case requestGet rnd url t =>
      cases hp
      obtain ⟨hn, ho⟩ : (m.core.requestGet rnd t).1.nodes = m.core.nodes ∧ _ :=
        WebProxyCore.nodes_requestGet
      exact hn.symm ▸ ho.symm ▸ hi
    case fromNetwork src msg =>
      cases hp
      cases msg
      case request n url => exact hi
      case response n r  =>
        obtain ⟨hn, ho⟩ : (m.core.handleResponse n r).core.nodes = m.core.nodes ∧ _ :=
          WebProxyCore.nodes_handleResponse
        exact hn.symm ▸ ho.symm ▸ hi

theorem Runs.ne_of_requestGet {rnd : U256} {url : String} (h : Runs history m)
    (ho : .toNetwork node (.request rnd url) ∈ (m.requestGet rnd url tx).out) :
    node ≠ m.core.ourId := by
  cases hg : m.core.getNode.2
  case none   => simp [Messages.requestGet, WebProxyCore.requestGet_of_none hg] at ho
  case some n =>
    simp only [Messages.requestGet, WebProxyCore.requestGet_of_some hg, Option.toList_some,
      List.map_singleton, List.mem_singleton, WebProxyOut.toNetwork.injEq, and_true] at ho
    cases ho
    exact fun he => h.ourId_notMem (he ▸ WebProxyCore.mem_nodes_of_getNode hg)

end Lifecycle

section Concrete

def ourNode : NodeID :=
  .ofPrefix [1]

def strangeNode : NodeID :=
  .ofPrefix [2]

def proxyNode : NodeID :=
  .ofPrefix [3]

def proxyInfo : NodeInfo where
  name    := "proxy"
  client  := "fledger"
  pubkey  := proxyNode.bytes
  modules := Modules.webproxyRequests
  id      := none

def pageNonce : U256 :=
  .ofPrefix [4]

def proxyConnected : WebProxyIn Unit :=
  .nodeInfoConnected [proxyInfo]

def pageRequest : WebProxyIn Unit :=
  .requestGet pageNonce "https://fledg.re" ()

def pageBody (src : NodeID) : WebProxyIn Unit :=
  .fromNetwork src (.response pageNonce (.body [5]))

def pageError : WebProxyIn Unit :=
  .fromNetwork proxyNode (.response pageNonce (.error "timeout"))

-- A body is handed over which comes from another node, and so is one which comes after an error.
theorem not_lifecycle :
    (∃ history m, Runs history m ∧
      history.map Event.msg = [pageBody strangeNode, pageRequest, proxyConnected] ∧
      ¬Event.Lifecycle history) ∧
    ∃ history m, Runs history m ∧
      history.map Event.msg = [pageBody proxyNode, pageError, pageRequest, proxyConnected] ∧
      ¬Event.Lifecycle history := by
  have hk : Runs [⟨_, proxyConnected, _⟩] _ := .step (.start .default ourNode) rfl
  have hp : Runs (⟨_, pageRequest, _⟩ :: _) _ := .step hk rfl
  have he : Runs (⟨_, pageError, _⟩ :: _) _ := .step hp rfl
  constructor
  case left  =>
    have h : Runs (⟨_, pageBody strangeNode, _⟩ :: _) _ := .step hp rfl
    refine ⟨_, _, h, rfl, fun hl => ?_⟩
    have hs := (hl.right _ _ _ rfl <| .inr <| .inr <| List.cons_ne_nil _ _).left
    revert hs
    decide +kernel
  case right =>
    have h : Runs (⟨_, pageBody proxyNode, _⟩ :: _) _ := .step he rfl
    refine ⟨_, _, h, rfl, fun hl => ?_⟩
    have hs := (hl.right _ _ _ rfl <| .inr <| .inr <| List.cons_ne_nil _ _).right
    exact hs _ List.mem_cons_self ⟨_, _, (), rfl, trivial, rfl⟩

theorem lifecycle_page :
    ∃ history m, Runs history m ∧
      history.map Event.msg = [pageBody proxyNode, pageRequest, proxyConnected] ∧
      (Event.Lifecycle history ↔ Event.Regular history) := by
  have hk : Runs [⟨_, proxyConnected, _⟩] _ := .step (.start .default ourNode) rfl
  have hp : Runs (⟨_, pageRequest, _⟩ :: _) _ := .step hk rfl
  have h : Runs (⟨_, pageBody proxyNode, _⟩ :: _) _ := .step hp rfl
  exact ⟨_, _, h, rfl, h.lifecycle_iff⟩

end Concrete

end WebProxy
