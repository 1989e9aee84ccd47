import Mathlib.Logic.Relation
import Fledger.Hermes.Experiment

namespace Hermes

-- What a client gets back, if its request did not fail.
abbrev Reply :=
  Option Response

namespace Response

-- The field is missing in the bodies of other responses.
def targetPageIds? : Response → Option (List String)
  | .targetPageIds ids => some ids
  | _                  => none

end Response

inductive CreatorPhase
  | create
  | storing
  | query
  | querying
  | start
  | starting
  | forever
  | ended
deriving DecidableEq

-- `run_create_pages`, from its target pages on.
structure Creator where
  targetAmount : Nat
  targetPages  : List Page
  phase        : CreatorPhase
  requests     : Nat

-- The page which is created, if it is, whether all lost pages are stored again, and whether the time
-- is over.
structure CreatorEnv where
  page    : Option Page
  stored  : Bool
  elapsed : Bool

namespace Creator

def new (targetAmount : Nat) : Creator where
  targetAmount := targetAmount
  targetPages  := []
  phase        := .create
  requests     := 0

def send (c : Creator) (phase : CreatorPhase) (request : Request) : Creator × Option Request :=
  ({ c with phase, requests := c.requests + 1 }, some request)

def step (c : Creator) (env : CreatorEnv) : Option (Creator × Option Request) :=
  match c.phase with
  | .create =>
    if c.targetPages.length < c.targetAmount then
      match env.page with
      | some page => some ({ c with targetPages := c.targetPages ++ [page] }, none)
      | none      => some ({ c with phase := .ended }, none)
    else some (c.send .storing (.storeTargetPages c.targetPages))
  | .query  => some (c.send .querying .lostTargetPages)
  | .start  => some (c.send .starting .startFetching)
  | _       => none

def receive (c : Creator) (env : CreatorEnv) (reply : Reply) : Option Creator :=
  match c.phase with
  | .storing  => some { c with phase := if reply.isSome then .query else .ended }
  | .querying =>
    match reply with
    | some (.lostTargetPages lost) =>
      if env.elapsed then some { c with phase := .ended }
      else if lost = [] then some { c with phase := .start }
      else some { c with phase := if env.stored then .query else .ended }
    | _                            => some { c with phase := .ended }
  | .starting => some { c with phase := if reply.isSome then .forever else .ended }
  | _         => none

end Creator

inductive FetcherPhase
  | create
  | creating
  | connect
  | loop
  | first
  | firstSent
  | poll
  | polling
  | upload
  | uploading
  | fetchAll
  | fetch (left : List String)
  | finishing
  | forever
  | ended
deriving DecidableEq

-- `run_fetch_pages`. It may be called with the order to be evil later, `evilNoForward` is the static
-- variable of the modules.
structure Fetcher where
  nodeName       : String
  evilNoforward  : Bool
  state          : SimulationState
  nodeId         : Option Nat
  targetPageIds  : List String
  fetchedPageIds : List String
  iteration      : UInt32
  evilNoForward  : Bool
  phase          : FetcherPhase
  requests       : Nat

-- What a fetcher gets from its node: whether there is a realm and whether the time is over, what it
-- uploads, and what comes of `get_flo`, if the id can be read. A set can be gone through in any order.
structure FetcherEnv where
  available           : Bool
  elapsed             : Bool
  connectedNodesTotal : UInt32
  dsSizeBytes         : UInt64
  dsMetrics           : DsMetrics
  pages               : List Page
  order               : List String → List String
  fetchPage           : String → Option Bool

namespace Fetcher

def new (nodeName : String) (evilNoforward : Bool) : Fetcher where
  nodeName       := nodeName
  evilNoforward  := evilNoforward
  state          := {
    nodeStatus                     := "active"
    pagesStored                    := []
    connectedNodesTotal            := 0
    dsSizeBytes                    := 0
    evilNoForward                  := false
    targetSuccessfullyFetchedTotal := 0
    fetchRequestsTotal             := 0
    dsMetrics                      := ⟨0, 0, 0, 0, 0, 0, 0, 0, 0, 0, 0, 0, 0⟩
  }
  nodeId         := none
  targetPageIds  := []
  fetchedPageIds := []
  iteration      := 0
  evilNoForward  := false
  phase          := .create
  requests       := 0

def send (f : Fetcher) (phase : FetcherPhase) (request : Request) : Fetcher × Option Request :=
  ({ f with phase, requests := f.requests + 1 }, some request)

-- Only a node has something to send.
def sendNode (f : Fetcher) (phase : FetcherPhase) (request : Nat → Request) :
    Option (Fetcher × Option Request) :=
  f.nodeId.map fun node => f.send phase (request node)

def setStatus (f : Fetcher) (nodeStatus : String) : Fetcher :=
  { f with state := { f.state with nodeStatus } }

def refresh (f : Fetcher) (env : FetcherEnv) : Fetcher :=
  { f with state := { f.state with
    connectedNodesTotal := env.connectedNodesTotal
    dsSizeBytes         := env.dsSizeBytes
    dsMetrics           := env.dsMetrics
    pagesStored         := env.pages
    evilNoForward       := f.evilNoforward } }

def updateAndUpload (f : Fetcher) (env : FetcherEnv) (phase : FetcherPhase) :
    Option (Fetcher × Option Request) :=
  (f.refresh env).sendNode phase fun node =>
    .update node (Snapshot.make (f.refresh env).state).toData

-- `get_stored_targets`.
def storedTargets (env : FetcherEnv) : List Page :=
  env.pages.filter fun page => "target".toList.isPrefixOf page.name.toList

def sendTargetPages (f : Fetcher) (env : FetcherEnv) (phase : FetcherPhase) :
    Option (Fetcher × Option Request) :=
  f.sendNode phase fun node => .setTargetPages node ((storedTargets env).map Page.id)

def fetchPage (f : Fetcher) (env : FetcherEnv) (id : String) (left : List String) : Fetcher :=
  if id ∈ f.fetchedPageIds then { f with phase := .fetch left }
  else
    match env.fetchPage id with
    | none         => { f with phase := .ended }
    | some fetched =>
      { f with
        state          := { f.state with fetchRequestsTotal := f.state.fetchRequestsTotal + 1 }
        fetchedPageIds := if fetched then f.fetchedPageIds ++ [id] else f.fetchedPageIds
        phase          := .fetch left
      }

def setFetchedTotal (f : Fetcher) : Fetcher :=
  { f with state := { f.state with
    targetSuccessfullyFetchedTotal := UInt32.ofNat f.fetchedPageIds.length } }

def Successful (f : Fetcher) : Prop :=
  f.targetPageIds ≠ [] ∧ f.targetPageIds ⊆ f.fetchedPageIds

instance (f : Fetcher) : Decidable f.Successful :=
  inferInstanceAs <| Decidable (_ ∧ _)

def step (f : Fetcher) (env : FetcherEnv) : Option (Fetcher × Option Request) :=
  match f.phase with
  | .create             => some (f.send .creating (.storeNode f.nodeName))
  | .connect            =>
    if env.available then some ({ f with phase := .loop }, none)
    else some ({ f.setStatus "timeout" with phase := .ended }, none)
  | .loop               =>
    if env.elapsed then (f.setStatus "timeout").updateAndUpload env .finishing
    else some ({ f with iteration := f.iteration + 1, phase := .first }, none)
  | .first              =>
    if f.iteration = 1 then f.updateAndUpload env .firstSent
    else some ({ f with phase := .poll }, none)
  | .poll               =>
    if f.iteration % 10 = 0 ∧ f.targetPageIds = [] then f.sendTargetPages env .polling
    else some ({ f with phase := .upload }, none)
  | .upload             =>
    if f.iteration % 30 = 0 ∧ f.targetPageIds ≠ [] then f.updateAndUpload env .uploading
    else some ({ f with phase := .fetchAll }, none)
  | .fetchAll           => some ({ f with phase := .fetch (env.order f.targetPageIds) }, none)
  | .fetch (id :: left) => some (f.fetchPage env id left, none)
  | .fetch []           =>
    if f.Successful then (f.setFetchedTotal.setStatus "success").updateAndUpload env .finishing
    else some ({ f.setFetchedTotal with phase := .loop }, none)
  | _                   => none

-- The ids are the first ones which the node gets, and from now on it may be evil.
def setTargets (f : Fetcher) (ids : List String) : Fetcher :=
  { f with targetPageIds := ids.dedup, evilNoForward := f.evilNoForward || f.evilNoforward }

def receive (f : Fetcher) (reply : Reply) : Option Fetcher :=
  match f.phase with
  | .creating  =>
    match reply with
    | some (.id node) => some { f with nodeId := some node, phase := .connect }
    | _               => some { f with phase := .ended }
  | .firstSent => some { f with phase := .poll }
  | .polling   =>
    match reply.bind Response.targetPageIds? with
    | some (id :: ids) => some { f.setTargets (id :: ids) with phase := .upload }
    | _                => some { f with phase := .upload }
  | .uploading => some { f with phase := .fetchAll }
  | .finishing => some { f with phase := .forever }
  | _          => none

end Fetcher

inductive Client
  | creator
  | fetcher (i : Nat)
deriving DecidableEq

-- What is sent belongs to the request of a client with its number.
structure Sent (A : Type) where
  client : Client
  number : Nat
  body   : A

structure Clients where
  creator  : Creator
  fetchers : Nat → Fetcher

-- A whole experiment. What has been sent is kept, and can be taken up any number of times.
structure Simulation where
  clients   : Clients
  db        : Database
  requests  : List (Sent Request)
  handlers  : List (Sent Handler)
  responses : List (Sent Response)
  reads     : List (Nat × NodeUpdateJob × Node)

namespace Clients

def setFetcher (p : Clients) (i : Nat) (f : Fetcher) : Clients :=
  { p with fetchers := Function.update p.fetchers i f }

end Clients

namespace Simulation

variable [Collection] [Carbon]

def sent (client : Client) (number : Nat) (request : Option Request) : List (Sent Request) :=
  request.toList.map fun body => { client, number, body }

-- The steps of the clients, of the server and of its workers.
inductive Step (s : Simulation) : Simulation → Prop
  | creator {env : CreatorEnv} {creator : Creator} {request : Option Request} :
    s.clients.creator.step env = some (creator, request) →
    Step s { s with
      clients  := { s.clients with creator }
      requests := s.requests ++ sent .creator creator.requests request
    }
  | replyCreator {env : CreatorEnv} {creator : Creator} {reply : Reply} :
    (∀ body ∈ reply, { client := .creator, number := s.clients.creator.requests, body } ∈
      s.responses) →
    s.clients.creator.receive env reply = some creator →
    Step s { s with clients := { s.clients with creator } }
  | fetcher {i : Nat} {env : FetcherEnv} {fetcher : Fetcher} {request : Option Request} :
    (∀ ids, (env.order ids).Perm ids) →
    (s.clients.fetchers i).step env = some (fetcher, request) →
    Step s { s with
      clients  := s.clients.setFetcher i fetcher
      requests := s.requests ++ sent (.fetcher i) fetcher.requests request
    }
  | replyFetcher {i : Nat} {fetcher : Fetcher} {reply : Reply} :
    (∀ body ∈ reply, { client := .fetcher i, number := (s.clients.fetchers i).requests, body } ∈
      s.responses) →
    (s.clients.fetchers i).receive reply = some fetcher →
    Step s { s with clients := s.clients.setFetcher i fetcher }
  | bind {request : Sent Request} :
    request ∈ s.requests →
    Step s { s with handlers := s.handlers ++ [{ request with body := s.db.bind request.body }] }
  | handle {env : HandlerEnv} {handler : Sent Handler} {db : Database} {body : Handler} :
    (∀ pages, (env.shuffle pages).Perm pages) → handler ∈ s.handlers →
    s.db.handle env handler.body = (db, body) →
    Step s { s with db, handlers := s.handlers ++ [{ handler with body }] }
  | respond {client : Client} {number : Nat} {body : Response} :
    { client, number, body := .response body } ∈ s.handlers →
    Step s { s with responses := s.responses ++ [{ client, number, body }] }
  | read {node : Nat} {job : NodeUpdateJob} {row : ExperimentNode} :
    (node, job) ∈ s.db.jobs → s.db.experiment.nodes[node]? = some row →
    Step s { s with reads := s.reads ++ [(node, job, row.toNode)] }
  | process {node : Nat} {job : NodeUpdateJob} {row : Node} :
    (node, job, row) ∈ s.reads → Step s { s with db := s.db.processUpdate node job row }

def Runs : Simulation → Simulation → Prop :=
  Relation.ReflTransGen Step

-- A step which leaves lists in their order. Requests, handlers, responses, jobs and reads are given
-- by their places.
inductive Act
  | creator (env : CreatorEnv)
  | replyCreator (env : CreatorEnv) (response : Option Nat)
  | fetcher (i : Nat) (env : FetcherEnv)
  | replyFetcher (i : Nat) (response : Option Nat)
  | bind (request : Nat)
  | handle (handler : Nat) (now : Nat)
  | respond (handler : Nat)
  | read (job : Nat)
  | process (read : Nat)

-- The reply to the last request of a client, or none if it fails.
def reply (s : Simulation) (client : Client) (number : Nat) : Option Nat → Option Reply
  | none   => some none
  | some k => do
    let response ← s.responses[k]?
    if response.client = client ∧ response.number = number then some response.body else none

def act (s : Simulation) : Act → Option Simulation
  | .creator env               => do
    let (creator, request) ← s.clients.creator.step env
    return { s with
      clients  := { s.clients with creator }
      requests := s.requests ++ sent .creator creator.requests request
    }
  | .replyCreator env response => do
    let creator ← s.clients.creator.receive env
      (← s.reply .creator s.clients.creator.requests response)
    return { s with clients := { s.clients with creator } }
  | .fetcher i env             => do
    let (fetcher, request) ← (s.clients.fetchers i).step { env with order := id }
    return { s with
      clients  := s.clients.setFetcher i fetcher
      requests := s.requests ++ sent (.fetcher i) fetcher.requests request
    }
  | .replyFetcher i response   => do
    let fetcher ← (s.clients.fetchers i).receive
      (← s.reply (.fetcher i) (s.clients.fetchers i).requests response)
    return { s with clients := s.clients.setFetcher i fetcher }
  | .bind k                    => do
    let request ← s.requests[k]?
    return { s with handlers := s.handlers ++ [{ request with body := s.db.bind request.body }] }
  | .handle k now              => do
    let handler ← s.handlers[k]?
    let (db, body) := s.db.handle { shuffle := id, now } handler.body
    return { s with db, handlers := s.handlers ++ [{ handler with body }] }
  | .respond k                 => do
    match ← s.handlers[k]? with
    | { client, number, body := .response body } =>
      return { s with responses := s.responses ++ [{ client, number, body }] }
    | _                                          => none
  | .read k                    => do
    let (node, job) ← s.db.jobs[k]?
    let row ← s.db.experiment.nodes[node]?
    return { s with reads := s.reads ++ [(node, job, row.toNode)] }
  | .process k                 => do
    let (node, job, row) ← s.reads[k]?
    return { s with db := s.db.processUpdate node job row }

def acts (s : Simulation) (acts : List Act) : Option Simulation :=
  acts.foldlM act s

variable {s s' : Simulation}

omit [Collection] [Carbon] in
theorem mem_of_reply {client : Client} {number : Nat} {k : Option Nat} {r : Reply}
    (h : s.reply client number k = some r) :
    ∀ body ∈ r, { client, number, body } ∈ s.responses := by
  cases k
  case none   => cases h; nofun
  case some k =>
    obtain ⟨response, hr, h⟩ := Option.bind_eq_some_iff.mp h
    split at h <;> cases h
    case isTrue hc =>
      rintro _ ⟨⟩
      obtain ⟨rfl, rfl⟩ := hc
      exact List.mem_of_getElem? hr

theorem step_of_act {a : Act} (h : s.act a = some s') : Step s s' := by
  cases a <;> simp only [act, Option.bind_eq_bind, Option.bind_eq_some_iff] at h
  case creator =>
    obtain ⟨⟨creator, request⟩, hc, h⟩ := h
    cases h
    exact .creator hc
  case replyCreator =>
    obtain ⟨reply, hr, creator, hc, h⟩ := h
    cases h
    exact .replyCreator (mem_of_reply hr) hc
  case fetcher =>
    obtain ⟨⟨fetcher, request⟩, hf, h⟩ := h
    cases h
    exact .fetcher (fun _ => .refl _) hf
  case replyFetcher =>
    obtain ⟨reply, hr, fetcher, hf, h⟩ := h
    cases h
    exact .replyFetcher (mem_of_reply hr) hf
  case bind =>
    obtain ⟨request, hr, h⟩ := h
    cases h
    exact .bind (List.mem_of_getElem? hr)
  case handle =>
    obtain ⟨handler, hh, h⟩ := h
    cases h
    exact .handle (fun _ => .refl _) (List.mem_of_getElem? hh) rfl
  case respond =>
    obtain ⟨handler, hh, h⟩ := h
    split at h <;> cases h
    exact .respond (List.mem_of_getElem? hh)
  case read =>
    obtain ⟨⟨node, job⟩, hj, row, hr, h⟩ := h
    cases h
    exact .read (List.mem_of_getElem? hj) hr
  case process =>
    obtain ⟨⟨node, job, row⟩, hr, h⟩ := h
    cases h
    exact .process (List.mem_of_getElem? hr)

theorem runs_of_acts {as : List Act} (h : s.acts as = some s') : Runs s s' := by
  induction as generalizing s
  case nil          => cases h; exact .refl
  case cons a as hi =>
    obtain ⟨_, ha, h⟩ := Option.bind_eq_some_iff.mp h
    exact (hi h).head (step_of_act ha)

-- The experiment has been created, with some nodes or without, and nobody has done anything.
def start (targetAmount targetsPerNode nodes : Nat) (fetchers : Nat → String × Bool) :
    Simulation where
  clients   := {
    creator  := .new targetAmount
    fetchers := fun i => .new (fetchers i).1 (fetchers i).2
  }
  db        := {
    experiment := { targetPages := [], targetsPerNode, nodes := List.replicate nodes .create }
    jobs       := []
  }
  requests  := []
  handlers  := []
  responses := []
  reads     := []

-- One page, and one node, which may be evil. Its first upload fails.
namespace OneNode

instance dedupCollection : Collection :=
  ⟨List.dedup, List.dedup_subset⟩

def page : Page :=
  { name := "target-0", id := "a" }

def creatorEnv : CreatorEnv :=
  { page := some page, stored := true, elapsed := false }

def fetcherEnv : FetcherEnv where
  available           := true
  elapsed             := false
  connectedNodesTotal := 1
  dsSizeBytes         := 1
  dsMetrics           := ⟨0, 0, 0, 0, 0, 0, 0, 0, 0, 0, 0, 0, 0⟩
  pages               := [page]
  order               := id
  fetchPage _         := some true

def begin (evil : Bool) : Simulation :=
  start 1 1 0 fun _ => ("node", evil)

def go (steps : Nat) : List Act :=
  List.replicate steps <| .fetcher 0 fetcherEnv

def create : List Act :=
  go 1 ++ [.bind 0, .handle 0 0, .respond 1, .replyFetcher 0 (some 0)] ++ go 3 ++
    [.replyFetcher 0 none]

-- The node tells in its tenth iteration which page it stores.
def tell : List Act :=
  go 55 ++ [.bind 2, .handle 2 0, .respond 3, .replyFetcher 0 (some 1)] ++ go 3

def propagate : List Act := [
  .creator creatorEnv, .creator creatorEnv,
  .bind 3, .handle 4 0, .respond 5, .replyCreator creatorEnv (some 2), .creator creatorEnv,
  .bind 4, .handle 6 0, .respond 7, .replyCreator creatorEnv (some 3), .creator creatorEnv,
  .bind 5, .handle 8 0, .handle 9 0, .respond 10, .replyCreator creatorEnv (some 4)]

-- In its twentieth iteration it gets its target page.
def untilStarted : List Act :=
  create ++ tell ++ propagate ++ go 57 ++
    [.bind 6, .handle 11 0, .respond 12, .replyFetcher 0 (some 5)]

def untilFetched : List Act :=
  untilStarted ++ go 4 ++ [.bind 7, .handle 13 9000000, .read 0, .process 0]

end OneNode

end Simulation

end Hermes
