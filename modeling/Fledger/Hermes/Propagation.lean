import Fledger.Hermes.Accuracy

namespace Hermes.Simulation

variable [Collection] [Carbon] {s₀ s s' : Simulation} {client : Client} {number : Nat}
  {request : Request} {handler : Handler} {response : Response} {t : Nat}

def targets (s : Simulation) : List Page :=
  s.clients.creator.targetPages

-- If the pages of the creator can be stored at all, they are.
def Saved (s : Simulation) : Prop :=
  validPages s.targets → s.db.experiment.targetPages = s.targets

def Started (s : Simulation) : Prop :=
  ∃ e ∈ s.requests, e.body = .startFetching

-- Each target page is stored by a node which is not known to be evil.
def Propagated (s : Simulation) : Prop :=
  ∀ page ∈ s.db.experiment.targetPages, ∃ node ∈ s.db.experiment.nodes,
    node.evilNoforward = false ∧ page.id ∈ node.storedTargets

-- The pages had been stored by the nodes before anything was fetched.
def Ready (s s₀ : Simulation) : Prop :=
  validPages s.targets → ∃ v, Runs s₀ v ∧ Runs v s ∧
    v.db.experiment.targetPages = s.targets ∧ v.Propagated ∧ ¬v.Started

-- The first request of the creator stores the pages, the last one is the one it waits for.
structure Replied (s s₀ : Simulation) (number : Nat) (response : Response) : Prop where
  saved : number = 1 → s.Saved
  ready : response = .lostTargetPages [] → s.clients.creator.phase = .querying →
    number = s.clients.creator.requests → s.Ready s₀

def OkRequest (s : Simulation) (client : Client) (number : Nat) : Request → Prop
  | .storeTargetPages pages => client = .creator ∧ pages = s.targets
  | .lostTargetPages        => client = .creator ∧ 1 < number ∧ s.Saved
  | .startFetching          => client = .creator ∧ 1 < number
  | _                       => client ≠ .creator

def OkResponse (s s₀ : Simulation) (client : Client) (number : Nat) (response : Response) : Prop :=
  client = .creator → s.Replied s₀ number response

def OkHandler (s s₀ : Simulation) (client : Client) (number : Nat) : Handler → Prop
  | .storeTargetPages pages => client = .creator ∧ pages = s.targets ∧ validPages pages
  | .lostTargetPages pages  =>
    client = .creator ∧ 1 < number ∧ s.Saved ∧ (validPages s.targets → pages = s.targets)
  | .startFetching pages _  =>
    client = .creator ∧ 1 < number ∧ s.Started ∧ (pages ≠ [] → validPages s.targets)
  | .response response      => s.OkResponse s₀ client number response
  | _                       => client ≠ .creator

-- What has been sent is numbered.
def Numbered (s : Simulation) (client : Client) (number : Nat) : Prop :=
  client = .creator → 1 ≤ number ∧ number ≤ s.clients.creator.requests

structure Messages (s s₀ : Simulation) : Prop where
  requests  : ∀ e ∈ s.requests, s.Numbered e.client e.number ∧ s.OkRequest e.client e.number e.body
  handlers  : ∀ e ∈ s.handlers,
    s.Numbered e.client e.number ∧ s.OkHandler s₀ e.client e.number e.body
  responses : ∀ e ∈ s.responses,
    s.Numbered e.client e.number ∧ s.OkResponse s₀ e.client e.number e.body

structure Ordered (s s₀ : Simulation) : Prop where
  reached  : Runs s₀ s
  create   : s.clients.creator.phase = .create → s.clients.creator.requests = 0
  storing  : s.clients.creator.phase = .storing → s.clients.creator.requests = 1
  query    : s.clients.creator.phase = .query ∨ s.clients.creator.phase = .querying ∨
    s.clients.creator.phase = .start → 1 ≤ s.clients.creator.requests ∧ s.Saved ∧ ¬s.Started
  start    : s.clients.creator.phase = .start ∨ s.Started → s.Ready s₀
  stored   : s.db.experiment.targetPages ≠ [] → 1 ≤ s.clients.creator.requests ∧
    s.db.experiment.targetPages = s.targets ∧ validPages s.targets
  messages : s.Messages s₀

-- How a simulation goes on, as far as it matters for what has been sent.
structure Follows (s₀ s s' : Simulation) : Prop where
  targets : s'.targets = s.targets
  number  : s.clients.creator.requests ≤ s'.clients.creator.requests
  saved   : s.Saved → s'.Saved
  started : s.Started → s'.Started
  ready   : s.Ready s₀ → s'.Ready s₀
  waiting : s'.clients.creator.phase = .querying →
    s'.clients.creator.requests = s.clients.creator.requests →
    s.clients.creator.phase = .querying

theorem Follows.numbered (h : Follows s₀ s s') (hn : s.Numbered client number) :
    s'.Numbered client number :=
  fun hc => ⟨(hn hc).1, (hn hc).2.trans h.number⟩

theorem Follows.okRequest (h : Follows s₀ s s') (hr : s.OkRequest client number request) :
    s'.OkRequest client number request := by
  cases request
  case storeTargetPages => exact ⟨hr.1, hr.2.trans h.targets.symm⟩
  case lostTargetPages  => exact ⟨hr.1, hr.2.1, h.saved hr.2.2⟩
  all_goals exact hr

theorem Follows.okResponse (h : Follows s₀ s s') (hn : s.Numbered client number)
    (hr : s.OkResponse s₀ client number response) : s'.OkResponse s₀ client number response := by
  intro hc
  refine ⟨fun he => h.saved <| (hr hc).saved he, fun he hp hl => ?_⟩
  have hl : s'.clients.creator.requests = s.clients.creator.requests :=
    le_antisymm (hl ▸ (hn hc).2) h.number
  exact h.ready <| (hr hc).ready he (h.waiting hp hl) (by omega)

theorem Follows.okHandler (h : Follows s₀ s s') (hn : s.Numbered client number)
    (hr : s.OkHandler s₀ client number handler) : s'.OkHandler s₀ client number handler := by
  cases handler
  case storeTargetPages => exact ⟨hr.1, hr.2.1.trans h.targets.symm, hr.2.2⟩
  case lostTargetPages  => exact ⟨hr.1, hr.2.1, h.saved hr.2.2.1, h.targets ▸ hr.2.2.2⟩
  case startFetching    => exact ⟨hr.1, hr.2.1, h.started hr.2.2.1, h.targets ▸ hr.2.2.2⟩
  case response         => exact h.okResponse hn hr
  all_goals exact hr

omit [Collection] [Carbon] in
theorem okRequest_of_ne (hc : client ≠ .creator) (hr : s.OkRequest client number request) :
    s'.OkRequest client number request := by
  cases request <;> first | exact hr | exact absurd hr.1 hc

theorem okHandler_of_ne (hc : client ≠ .creator) (hr : s.OkHandler s₀ client number handler) :
    s'.OkHandler s₀ client number handler := by
  cases handler
  case response => exact fun h => absurd h hc
  all_goals first | exact hr | exact absurd hr.1 hc

theorem Ready.step (hr : s.Ready s₀) (hs : Step s s') (ht : s'.targets = s.targets) :
    s'.Ready s₀ := by
  intro hv
  obtain ⟨v, h₀, h, he, hp, hn⟩ := hr (ht ▸ hv)
  exact ⟨v, h₀, h.tail hs, he.trans ht.symm, hp, hn⟩

-- What has been sent before is still as it should be.
theorem Messages.follows (h : s.Messages s₀) (hf : Follows s₀ s s')
    (hr : ∀ e ∈ s'.requests, e ∈ s.requests ∨
      s'.Numbered e.client e.number ∧ s'.OkRequest e.client e.number e.body)
    (hh : ∀ e ∈ s'.handlers, e ∈ s.handlers ∨
      s'.Numbered e.client e.number ∧ s'.OkHandler s₀ e.client e.number e.body)
    (hp : ∀ e ∈ s'.responses, e ∈ s.responses ∨
      s'.Numbered e.client e.number ∧ s'.OkResponse s₀ e.client e.number e.body) :
    s'.Messages s₀ where
  requests e he  := (hr e he).elim (fun he => (h.requests e he).imp hf.numbered hf.okRequest) id
  handlers e he  := (hh e he).elim (fun he => ⟨hf.numbered (h.handlers e he).1,
    hf.okHandler (h.handlers e he).1 (h.handlers e he).2⟩) id
  responses e he := (hp e he).elim (fun he => ⟨hf.numbered (h.responses e he).1,
    hf.okResponse (h.responses e he).1 (h.responses e he).2⟩) id

-- The creator waits, and the target pages of the experiment are not touched.
theorem follows_of_step (hs : Step s s') (hc : s'.clients.creator = s.clients.creator)
    (ht : s'.db.experiment.targetPages = s.db.experiment.targetPages)
    (hr : s.requests ⊆ s'.requests) : Follows s₀ s s' where
  targets      := congrArg Creator.targetPages hc
  number       := (congrArg Creator.requests hc).ge
  saved h      := by rw [Saved, targets, hc, ht]; exact h
  started      := fun ⟨e, he, hb⟩ => ⟨e, hr he, hb⟩
  ready h      := h.step hs (congrArg Creator.targetPages hc)
  waiting hp _ := hc ▸ hp

theorem Ordered.follows (h : s.Ordered s₀) (hs : Step s s') (hf : Follows s₀ s s')
    (hc : s'.clients.creator = s.clients.creator)
    (ht : s'.db.experiment.targetPages ≠ [] → 1 ≤ s'.clients.creator.requests ∧
      s'.db.experiment.targetPages = s'.targets ∧ validPages s'.targets)
    (hl : s'.Started → s.Started) (hm : s'.Messages s₀) : s'.Ordered s₀ where
  reached  := h.reached.tail hs
  create   := hc ▸ h.create
  storing  := hc ▸ h.storing
  query hp := by
    obtain ⟨hn, hsaved, hno⟩ := h.query (hc ▸ hp)
    exact ⟨hc ▸ hn, hf.saved hsaved, fun h => hno (hl h)⟩
  start hp := hf.ready <| h.start <| hp.imp (hc ▸ ·) hl
  stored   := ht
  messages := hm

-- Nothing but the requests changes of what is looked at.
theorem Ordered.requests (h : s.Ordered s₀) (hs : Step s s')
    (hc : s'.clients.creator = s.clients.creator)
    (ht : s'.db.experiment.targetPages = s.db.experiment.targetPages)
    (hh : s'.handlers = s.handlers) (hp : s'.responses = s.responses)
    (hr : s.requests ⊆ s'.requests) (hn : ∀ e ∈ s'.requests, e ∈ s.requests ∨
      e.client ≠ .creator ∧ s'.OkRequest e.client e.number e.body) : s'.Ordered s₀ := by
  have hf : Follows s₀ s s' := follows_of_step hs hc ht hr
  refine h.follows hs hf hc ?_ ?_ ?_
  case refine_1 =>
    rw [ht, targets, hc]
    exact h.stored
  case refine_2 =>
    rintro ⟨e, he, hb⟩
    obtain he | ⟨hne, ho⟩ := hn e he
    · exact ⟨e, he, hb⟩
    · rw [hb] at ho
      exact absurd ho.1 hne
  case refine_3 =>
    refine h.messages.follows hf (fun e he => ?_) (fun _ he => .inl (hh ▸ he))
      fun _ he => .inl (hp ▸ he)
    exact (hn e he).imp id fun hn => ⟨fun hc => absurd hc hn.1, hn.2⟩

omit [Collection] [Carbon] in
-- What a client other than the creator sends does not matter.
theorem okRequest_sent {i : Nat} {f : Fetcher} {sent : Option Request}
    (hr : ∀ r ∈ sent, f.Truthful r) :
    ∀ e ∈ Simulation.sent (.fetcher i) number sent,
      e.client ≠ .creator ∧ s.OkRequest e.client e.number e.body := by
  rintro e he
  obtain ⟨r, hm, rfl⟩ := List.mem_map.mp he
  have ht := hr r <| by simpa using hm
  refine ⟨nofun, ?_⟩
  cases r <;> first | exact ht.elim | nofun

theorem okHandler_bind (h : s.Ordered s₀) {e : Sent Request} (he : e ∈ s.requests) :
    s.OkHandler s₀ e.client e.number (s.db.bind e.body) := by
  obtain ⟨hn, ho⟩ := h.messages.requests e he
  generalize hb : e.body = request at ho
  cases request <;> rw [Database.bind]
  case storeTargetPages pages =>
    split
    case isTrue hv  => exact ⟨ho.1, ho.2, hv⟩
    case isFalse hv =>
      refine fun _ => ⟨fun _ h => absurd (ho.2 ▸ h) hv, fun h => ?_⟩
      cases h
  case lostTargetPages => exact ⟨ho.1, ho.2.1, ho.2.2, ho.2.2⟩
  case startFetching   => exact ⟨ho.1, ho.2, ⟨e, he, hb⟩, fun h' => (h.stored h').2.2⟩
  case storeNode => split <;> first | exact ho | exact fun h => absurd h ho
  case update node _ | setTargetPages node _ =>
    cases s.db.experiment.nodes[node]?
    case none   => exact fun h => absurd h ho
    case some _ =>
      dsimp only
      split <;> first | exact ho | exact fun h => absurd h ho

omit [Carbon] in
theorem propagated_of_lost (hl : s.db.experiment.lostTargetPages s.db.experiment.targetPages = []) :
    s.Propagated := by
  intro page hp
  have hs : page.id ∈ s.db.experiment.storedTargetPages := by
    by_contra hn
    have hm : page.id ∈ s.db.experiment.lostTargetPages s.db.experiment.targetPages :=
      List.mem_filter.mpr ⟨List.mem_map_of_mem hp, decide_eq_true hn⟩
    rw [hl] at hm
    cases hm
  obtain ⟨node, hn, hm⟩ := List.mem_flatMap.mp <| Collection.unique_subset _ hs
  obtain ⟨hn, he⟩ := List.mem_filter.mp hn
  exact ⟨node, hn, by simpa using he, hm⟩

theorem okHandler_handle (h : s.Ordered s₀) (hs : Step s s') (hf : Follows s₀ s s')
    (hc : s'.clients.creator = s.clients.creator) {env : HandlerEnv} {db : Database} {body : Handler}
    (hn : s.Numbered client number) (ho : s.OkHandler s₀ client number handler)
    (hsaved : ∀ pages, handler = .storeTargetPages pages → s'.Saved)
    (hd : s.db.handle env handler = (db, body)) : s'.OkHandler s₀ client number body := by
  cases handler
  case storeTargetPages => cases hd; exact fun _ => ⟨fun _ => hsaved _ rfl, nofun⟩
  case lostTargetPages pages =>
    cases hd
    obtain ⟨_, hone, hsaved, hp⟩ := ho
    refine fun _ => ⟨fun he => by omega, fun hl hph _ hv => ?_⟩
    rw [hf.targets] at hv ⊢
    have ht := hsaved hv
    refine ⟨s, h.reached, .single hs, ht, propagated_of_lost ?_, (h.query ?_).2.2⟩
    case refine_1 =>
      rw [ht, ← hp hv]
      exact Response.lostTargetPages.inj hl
    case refine_2 => exact .inr <| .inl <| hc ▸ hph
  case startFetching pages left =>
    cases left <;> cases hd
    case nil  => exact fun _ => ⟨fun he => absurd he <| Nat.ne_of_gt ho.2.1, nofun⟩
    case cons => exact hf.okHandler hn ho
  case response => cases hd; exact hf.okHandler hn ho
  all_goals cases hd; exact fun h => absurd h ho

omit [Carbon] in
theorem handle_targetPages {db db' : Database} {env : HandlerEnv} {body : Handler}
    (h : db.handle env handler = (db', body)) :
    (∀ pages, handler ≠ .storeTargetPages pages) ∧
      db'.experiment.targetPages = db.experiment.targetPages ∨
    ∃ pages, handler = .storeTargetPages pages ∧ db'.experiment.targetPages = pages := by
  cases handler
  case storeTargetPages     => cases h; exact .inr ⟨_, rfl, rfl⟩
  case startFetching _ left => cases left <;> cases h <;> exact .inl ⟨nofun, rfl⟩
  all_goals cases h; exact .inl ⟨nofun, rfl⟩

theorem Ordered.handle (h : s.Ordered s₀) {env : HandlerEnv} {e : Sent Handler} {db : Database}
    {body : Handler} (he : e ∈ s.handlers) (hd : s.db.handle env e.body = (db, body))
    (hs : Step s { s with db, handlers := s.handlers ++ [{ e with body }] }) :
    { s with db, handlers := s.handlers ++ [{ e with body }] }.Ordered s₀ := by
  generalize hs' : { s with db, handlers := s.handlers ++ [{ e with body }] } = s' at hs ⊢
  have hc : s'.clients.creator = s.clients.creator := hs' ▸ rfl
  have htargets : s'.targets = s.targets := congrArg Creator.targetPages hc
  have hdb : s'.db = db := hs' ▸ rfl
  have hreq : s'.requests = s.requests := hs' ▸ rfl
  have hres : s'.responses = s.responses := hs' ▸ rfl
  have hhan : s'.handlers = s.handlers ++ [{ e with body }] := hs' ▸ rfl
  obtain ⟨hn, ho⟩ := h.messages.handlers e he
  have hk : Follows s₀ s s' ∧ (∀ pages, e.body = .storeTargetPages pages → s'.Saved) ∧
      (s'.db.experiment.targetPages ≠ [] → 1 ≤ s'.clients.creator.requests ∧
        s'.db.experiment.targetPages = s'.targets ∧ validPages s'.targets) := by
    obtain ⟨hne, ht⟩ | ⟨pages, hb, ht⟩ := handle_targetPages hd <;> rw [← hdb] at ht
    case inl =>
      refine ⟨follows_of_step hs hc ht (hreq ▸ List.Subset.refl _), fun _ hb => absurd hb (hne _), ?_⟩
      rw [ht, hc, htargets]
      exact h.stored
    case inr =>
      rw [hb] at ho
      have hsaved : s'.Saved := fun _ => ht.trans <| ho.2.1.trans htargets.symm
      refine ⟨⟨htargets, (congrArg Creator.requests hc).ge, fun _ => hsaved, ?_, ?_, ?_⟩,
        fun _ _ => hsaved, fun _ => ?_⟩
      case refine_1 => rw [Started, Started, hreq]; exact id
      case refine_2 => exact fun h => h.step hs htargets
      case refine_3 => exact fun hp _ => hc ▸ hp
      case refine_4 =>
        have hv : validPages s'.targets := by rw [htargets, ← ho.2.1]; exact ho.2.2
        rw [hc]
        exact ⟨(hn ho.1).1.trans (hn ho.1).2, hsaved hv, hv⟩
  obtain ⟨hf, hsaved, hst⟩ := hk
  refine h.follows hs hf hc hst (by rw [Started, Started, hreq]; exact id) <|
    h.messages.follows hf (fun _ he => .inl (hreq ▸ he)) (fun d hm => ?_) fun _ he => .inl (hres ▸ he)
  rw [hhan] at hm
  refine (List.mem_append.mp hm).imp id fun hm => ?_
  cases List.mem_singleton.mp hm
  exact ⟨hf.numbered hn, okHandler_handle h hs hf hc hn ho hsaved hd⟩

-- The creator has not sent anything.
theorem Ordered.unrequested (h : s.Ordered s₀) (hs : Step s s') (hz : s.clients.creator.requests = 0)
    (hz' : s'.clients.creator.requests = 0)
    (hp : s'.clients.creator.phase = .create ∨ s'.clients.creator.phase = .ended)
    (hexp : s'.db.experiment.targetPages = s.db.experiment.targetPages)
    (hreq : s'.requests = s.requests) (hhan : s'.handlers = s.handlers)
    (hres : s'.responses = s.responses) : s'.Ordered s₀ := by
  have hne : ∀ {client number}, s.Numbered client number → client ≠ .creator := fun hn he => by
    have := hn he
    omega
  have hno : ¬s'.Started := by
    rintro ⟨e, he, hb⟩
    obtain ⟨hn, ho⟩ := h.messages.requests e (hreq ▸ he)
    rw [hb] at ho
    exact hne hn ho.1
  refine ⟨h.reached.tail hs, fun _ => hz', fun hc => ?_, fun hc => ?_, fun hc => ?_, fun ht => ?_, ?_⟩
  case refine_1 => rw [hc] at hp; exact absurd hp (by simp)
  case refine_2 => obtain hc | hc | hc := hc <;> rw [hc] at hp <;> exact absurd hp (by simp)
  case refine_3 =>
    obtain hc | hl := hc
    · rw [hc] at hp; exact absurd hp (by simp)
    · exact absurd hl hno
  case refine_4 => have := (h.stored (hexp ▸ ht)).1; omega
  case refine_5 =>
    refine ⟨fun e he => ?_, fun e he => ?_, fun e he => ?_⟩
    case refine_1 =>
      obtain ⟨hn, ho⟩ := h.messages.requests e (hreq ▸ he)
      exact ⟨fun hc => absurd hc (hne hn), okRequest_of_ne (hne hn) ho⟩
    case refine_2 =>
      obtain ⟨hn, ho⟩ := h.messages.handlers e (hhan ▸ he)
      exact ⟨fun hc => absurd hc (hne hn), okHandler_of_ne (hne hn) ho⟩
    case refine_3 =>
      have hn := hne (h.messages.responses e (hres ▸ he)).1
      exact ⟨fun hc => absurd hc hn, fun hc => absurd hc hn⟩

-- The creator sends a request, and waits for the reply.
theorem Ordered.send (h : s.Ordered s₀) (hs : Step s s') (htargets : s'.targets = s.targets)
    (hexp : s'.db.experiment.targetPages = s.db.experiment.targetPages)
    (hnum : s'.clients.creator.requests = s.clients.creator.requests + 1)
    (hreq : s'.requests = s.requests ++
      [{ client := .creator, number := s.clients.creator.requests + 1, body := request }])
    (hhan : s'.handlers = s.handlers) (hres : s'.responses = s.responses)
    (hp : s.clients.creator.phase = .create ∧ s'.clients.creator.phase = .storing ∧
        request = .storeTargetPages s.targets ∨
      s.clients.creator.phase = .query ∧ s'.clients.creator.phase = .querying ∧
        request = .lostTargetPages ∨
      s.clients.creator.phase = .start ∧ s'.clients.creator.phase = .starting ∧
        request = .startFetching) : s'.Ordered s₀ := by
  have hf : Follows s₀ s s' := {
    targets      := htargets
    number       := by omega
    saved        := by rw [Saved, Saved, htargets, hexp]; exact id
    started      := fun ⟨e, he, hb⟩ => ⟨e, hreq ▸ List.mem_append_left _ he, hb⟩
    ready h      := h.step hs htargets
    waiting _ hn := by omega
  }
  have hl : s'.Started → s.Started ∨ s.clients.creator.phase = .start := by
    rintro ⟨e, he, hb⟩
    rw [hreq] at he
    obtain he | he := List.mem_append.mp he
    · exact .inl ⟨e, he, hb⟩
    · cases List.mem_singleton.mp he
      cases hb
      obtain ⟨_, _, hr⟩ | ⟨_, _, hr⟩ | ⟨hp, _⟩ := hp
      · cases hr
      · cases hr
      · exact .inr hp
  have hone : s.clients.creator.phase ≠ .create → 1 ≤ s.clients.creator.requests := fun hne => by
    obtain ⟨hc, _⟩ | ⟨hc, _⟩ | ⟨hc, _⟩ := hp
    · exact absurd hc hne
    · exact (h.query (.inl hc)).1
    · exact (h.query (.inr <| .inr hc)).1
  refine ⟨h.reached.tail hs, fun hc => ?_, fun hc => ?_, fun hc => ?_, fun hc => ?_, fun ht => ?_,
    h.messages.follows hf (fun e he => ?_) (fun _ he => .inl (hhan ▸ he)) fun _ he => .inl (hres ▸ he)⟩
  case refine_1 => rw [hc] at hp; exact absurd hp (by simp)
  case refine_2 =>
    rw [hc] at hp
    obtain ⟨hc, _⟩ | ⟨_, hc, _⟩ | ⟨_, hc, _⟩ := hp
    · rw [hnum, h.create hc]
    · cases hc
    · cases hc
  case refine_3 =>
    obtain ⟨_, hph, _⟩ | ⟨hq, hph, _⟩ | ⟨_, hph, _⟩ := hp
    · rw [hph] at hc; exact absurd hc (by simp)
    · obtain ⟨_, hsaved, hno⟩ := h.query (.inl hq)
      refine ⟨by omega, hf.saved hsaved, fun hst => (hl hst).elim hno fun hph => ?_⟩
      rw [hph] at hq
      cases hq
    · rw [hph] at hc; exact absurd hc (by simp)
  case refine_4 =>
    refine hf.ready <| h.start ?_
    obtain hc | hc := hc
    · rw [hc] at hp; exact absurd hp (by simp)
    · exact (hl hc).symm
  case refine_5 =>
    rw [hexp] at ht ⊢
    obtain ⟨hn, he, hv⟩ := h.stored ht
    rw [htargets]
    exact ⟨by omega, he, hv⟩
  case refine_6 =>
    rw [hreq] at he
    refine (List.mem_append.mp he).imp id fun he => ?_
    cases List.mem_singleton.mp he
    refine ⟨fun _ => ⟨by simp, by simp [hnum]⟩, ?_⟩
    obtain ⟨_, _, rfl⟩ | ⟨hq, _, rfl⟩ | ⟨hq, _, rfl⟩ := hp
    · exact ⟨rfl, htargets.symm⟩
    · have := hone (by rw [hq]; nofun)
      exact ⟨rfl, Nat.lt_add_of_pos_left this, hf.saved (h.query (.inl hq)).2.1⟩
    · have := hone (by rw [hq]; nofun)
      exact ⟨rfl, Nat.lt_add_of_pos_left this⟩

-- The creator gets a reply.
theorem Ordered.reply (h : s.Ordered s₀) {phase : CreatorPhase} {reply : Reply}
    (hs : Step s { s with clients := { s.clients with creator := { s.clients.creator with phase } } })
    (hr : ∀ body ∈ reply,
      { client := .creator, number := s.clients.creator.requests, body } ∈ s.responses)
    (hp : phase = .ended ∨ s.clients.creator.phase = .storing ∧ reply ≠ none ∧ phase = .query ∨
      s.clients.creator.phase = .querying ∧ phase = .query ∨ s.clients.creator.phase = .querying ∧
        reply = some (.lostTargetPages []) ∧ phase = .start ∨
      s.clients.creator.phase = .starting ∧ phase = .forever) :
    { s with clients := { s.clients with creator :=
      { s.clients.creator with phase } } }.Ordered s₀ := by
  have hf : Follows s₀ s
      { s with clients := { s.clients with creator := { s.clients.creator with phase } } } := {
    targets       := rfl
    number        := le_rfl
    saved         := id
    started       := id
    ready h       := h.step hs rfl
    waiting hph _ := by
      cases hph
      exact absurd hp (by simp)
  }
  refine ⟨h.reached.tail hs, fun hc => ?_, fun hc => ?_, fun hc => ?_, fun hc => ?_, h.stored,
    h.messages.follows hf (fun _ => .inl) (fun _ => .inl) fun _ => .inl⟩
  case refine_1 => cases hc; exact absurd hp (by simp)
  case refine_2 => cases hc; exact absurd hp (by simp)
  case refine_3 =>
    obtain rfl | ⟨hst, hne, rfl⟩ | ⟨hq, rfl⟩ | ⟨hq, _, rfl⟩ | ⟨_, rfl⟩ := hp
    · exact absurd hc (by simp)
    · obtain ⟨body, rfl⟩ := Option.ne_none_iff_exists'.mp hne
      have hone := h.storing hst
      refine ⟨hone.ge, ?_, fun ⟨e, he, hb⟩ => ?_⟩
      · exact ((h.messages.responses _ (hr body rfl)).2 rfl).saved hone
      · obtain ⟨hn, ho⟩ := h.messages.requests e he
        rw [hb] at ho
        have := (hn ho.1).2
        have := ho.2
        omega
    · exact h.query (.inr <| .inl hq)
    · exact h.query (.inr <| .inl hq)
    · exact absurd hc (by simp)
  case refine_4 =>
    refine hf.ready ?_
    obtain hc | hc := hc
    · cases hc
      obtain hc | ⟨_, _, hc⟩ | ⟨_, hc⟩ | ⟨hq, rfl, _⟩ | ⟨_, hc⟩ := hp
      · cases hc
      · cases hc
      · cases hc
      · exact ((h.messages.responses _ (hr _ rfl)).2 rfl).ready rfl hq rfl
      · cases hc
    · exact h.start (.inr hc)

theorem Ordered.step (h : s.Ordered s₀) (ha : s.Accurate t) (hs : Step s s') : s'.Ordered s₀ := by
  have hs' := hs
  cases hs
  case creator hc =>
    obtain ⟨hp, rfl, ⟨_, rfl⟩ | rfl⟩ | ⟨phase, r, rfl, rfl, hp⟩ := Creator.step_cases hc
    · have hz := h.create hp
      exact h.unrequested hs' hz hz (.inl hp) rfl (List.append_nil _) rfl rfl
    · have hz := h.create hp
      exact h.unrequested hs' hz hz (.inr rfl) rfl (List.append_nil _) rfl rfl
    · exact h.send hs' rfl rfl rfl rfl rfl rfl hp
  case replyCreator hm hc =>
    obtain ⟨phase, rfl, hp⟩ := Creator.receive_cases hc
    exact h.reply hs' hm hp
  case fetcher i _ f _ ho hf =>
    refine h.requests hs' rfl rfl rfl rfl (List.subset_append_left ..) fun e he => ?_
    exact (List.mem_append.mp he).imp id <|
      okRequest_sent (Fetcher.good_of_step ho (ha.fetchers i) hf).truthful e
  case replyFetcher hc =>
    exact h.requests hs' rfl rfl rfl rfl (List.Subset.refl _) fun _ => .inl
  case bind e he =>
    have hf : Follows s₀ s _ := follows_of_step hs' rfl rfl (List.Subset.refl _)
    refine h.follows hs' hf rfl h.stored id <|
      h.messages.follows hf (fun _ => .inl) (fun d hd => ?_) fun _ => .inl
    refine (List.mem_append.mp hd).imp id fun hd => ?_
    cases List.mem_singleton.mp hd
    have hn := (h.messages.requests e he).1
    exact ⟨hf.numbered hn, hf.okHandler hn <| okHandler_bind h he⟩
  case handle he hd => exact h.handle he hd hs'
  case respond client number body hm =>
    have hf : Follows s₀ s _ := follows_of_step hs' rfl rfl (List.Subset.refl _)
    refine h.follows hs' hf rfl h.stored id <|
      h.messages.follows hf (fun _ => .inl) (fun _ => .inl) fun d hd => ?_
    refine (List.mem_append.mp hd).imp id fun hd => ?_
    cases List.mem_singleton.mp hd
    obtain ⟨hn, ho⟩ := h.messages.handlers _ hm
    exact ⟨hf.numbered hn, hf.okResponse hn ho⟩
  case read hc =>
    exact h.requests hs' rfl rfl rfl rfl (List.Subset.refl _) fun _ => .inl
  case process hc =>
    exact h.requests hs' rfl rfl rfl rfl (List.Subset.refl _) fun _ => .inl

theorem ordered_start {targetAmount nodes : Nat} {fetchers : Nat → String × Bool} :
    (start targetAmount t nodes fetchers).Ordered (start targetAmount t nodes fetchers) where
  reached   := .refl
  create _  := rfl
  storing h := by cases h
  query h   := by obtain h | h | h := h <;> cases h
  start h   := by
    obtain h | ⟨_, he, _⟩ := h
    · cases h
    · cases he
  stored h  := absurd rfl h
  messages  := {
    requests _ h  := by cases h
    handlers _ h  := by cases h
    responses _ h := by cases h
  }

-- Fetching has been started, and there is something to fetch.
def Begun (s : Simulation) : Prop :=
  s.Started ∧ validPages s.targets

-- The handler only has target pages if fetching has been started.
def Late (s : Simulation) : Handler → Prop
  | .update _ pages _                 => pages ≠ [] → s.Begun
  | .setTargetPages _ read _          => read.targetPages ≠ [] → s.Begun
  | .response (.targetPageIds ids)    => ids ≠ [] → s.Begun
  | _                                 => True

structure Spread (s : Simulation) : Prop where
  rows      : ∀ row ∈ s.db.experiment.nodes, row.targetPages ≠ [] → s.Begun
  handlers  : ∀ e ∈ s.handlers, s.Late e.body
  responses : ∀ e ∈ s.responses, s.Late (.response e.body)
  fetchers  : ∀ i, (s.clients.fetchers i).targetPageIds ≠ [] → s.Begun

theorem Step.requests_subset (hs : Step s s') : s.requests ⊆ s'.requests := by
  cases hs
  case creator | fetcher => exact List.subset_append_left ..
  all_goals exact List.Subset.refl _

theorem Step.creator_advance (hs : Step s s') : s.clients.creator.Advance s'.clients.creator := by
  cases hs
  case creator hc      => exact (Creator.advance_of_step hc).1
  case replyCreator hc => exact Creator.advance_of_receive hc
  all_goals exact ⟨id, fun _ => rfl⟩

theorem Begun.step (hb : s.Begun) (h : s.Ordered s₀) (hs : Step s s') : s'.Begun := by
  obtain ⟨⟨e, he, hf⟩, hv⟩ := hb
  have hc : s.clients.creator.phase ≠ .create := fun hc => by
    obtain ⟨hn, ho⟩ := h.messages.requests e he
    rw [hf] at ho
    have := hn ho.1
    have := h.create hc
    omega
  refine ⟨⟨e, hs.requests_subset he, hf⟩, ?_⟩
  rw [targets, hs.creator_advance.pages hc]
  exact hv

omit [Collection] [Carbon] in
theorem Late.mono {handler : Handler} (h : s.Late handler) (hb : s.Begun → s'.Begun) :
    s'.Late handler := by
  cases handler
  case update         => exact fun hn => hb (h hn)
  case setTargetPages => exact fun hn => hb (h hn)
  case response r     => cases r <;> first | exact fun hn => hb (h hn) | trivial
  all_goals trivial

omit [Collection] [Carbon] in
theorem late_bind (h : s.Spread) : s.Late (s.db.bind request) := by
  cases request <;> rw [Database.bind]
  case storeNode => split <;> trivial
  case storeTargetPages => split <;> trivial
  case lostTargetPages | startFetching => trivial
  case update =>
    split
    case h_2    => trivial
    case h_1 hr => split <;> first | exact h.rows _ (List.mem_of_getElem? hr) | trivial
  case setTargetPages =>
    split
    case h_2    => trivial
    case h_1 hr => split <;> first | exact h.rows _ (List.mem_of_getElem? hr) | trivial

omit [Carbon] in
theorem late_handle {env : HandlerEnv} {db : Database} {body : Handler} (h : s.Late handler)
    (hd : s.db.handle env handler = (db, body)) : s.Late body := by
  cases handler
  case update         => cases hd; exact fun hn => h fun hp => hn (hp ▸ rfl)
  case setTargetPages => cases hd; exact fun hn => h fun hp => hn (by rw [hp]; rfl)
  case response       => cases hd; exact h
  case startFetching _ left => cases left <;> cases hd <;> trivial
  all_goals cases hd; trivial

omit [Collection] [Carbon] in
theorem mem_modify {db : Database} {node : Nat} {f : ExperimentNode → ExperimentNode}
    {row : ExperimentNode} (h : row ∈ (db.modifyNode node f).experiment.nodes) :
    row ∈ db.experiment.nodes ∨ ∃ old ∈ db.experiment.nodes, row = f old := by
  obtain ⟨i, hi⟩ := List.mem_iff_getElem?.mp h
  simp only [Database.modifyNode, List.getElem?_modify, Option.map_eq_map,
    Option.map_eq_some_iff] at hi
  obtain ⟨old, ho, rfl⟩ := hi
  split
  case isTrue  => exact .inr ⟨old, List.mem_of_getElem? ho, rfl⟩
  case isFalse => exact .inl <| List.mem_of_getElem? ho

theorem rows_handle (h : s.Spread) (ho : s.Ordered s₀) {env : HandlerEnv} {e : Sent Handler}
    {db : Database} {body : Handler} (hp : ∀ pages, (env.shuffle pages).Perm pages)
    (he : e ∈ s.handlers) (hd : s.db.handle env e.body = (db, body)) :
    ∀ row ∈ db.experiment.nodes, row.targetPages ≠ [] → s.Begun := by
  have hk := (ho.messages.handlers e he).2
  generalize e.body = handler at hd hk
  intro row hr hn
  cases handler
  case storeNode =>
    cases hd
    obtain hr | hr := List.mem_append.mp hr
    · exact h.rows row hr hn
    · cases List.mem_singleton.mp hr
      exact absurd rfl hn
  case startFetching pages left =>
    cases left <;> cases hd
    case nil  => exact h.rows row hr hn
    case cons =>
      obtain hr | ⟨old, hr, rfl⟩ := mem_modify hr
      · exact h.rows row hr hn
      · refine ⟨hk.2.2.1, hk.2.2.2 fun hz => hn ?_⟩
        cases hz
        dsimp only
        rw [(hp []).eq_nil, List.take_nil]
  case setTargetPages =>
    cases hd
    obtain hr | ⟨old, hold, rfl⟩ := mem_modify hr
    · exact h.rows row hr hn
    · exact h.rows old hold hn
  all_goals cases hd; exact h.rows row hr hn

theorem Spread.step (h : s.Spread) (ho : s.Ordered s₀) (hs : Step s s') : s'.Spread := by
  have hb : s.Begun → s'.Begun := fun hb => hb.step ho hs
  cases hs
  case creator | replyCreator =>
    exact ⟨fun row hr hn => hb (h.rows row hr hn), fun e he => (h.handlers e he).mono hb,
      fun e he => (h.responses e he).mono hb, fun i hn => hb (h.fetchers i hn)⟩
  case fetcher i _ f _ hp hf =>
    refine ⟨fun row hr hn => hb (h.rows row hr hn), fun e he => (h.handlers e he).mono hb,
      fun e he => (h.responses e he).mono hb, fun j hn => hb ?_⟩
    by_cases hj : j = i
    case pos =>
      cases hj
      rw [Clients.setFetcher_self, (Fetcher.ids_of_step hf).2] at hn
      exact h.fetchers i hn
    case neg => rw [Clients.setFetcher_of_ne hj] at hn; exact h.fetchers j hn
  case replyFetcher i f _ hm hf =>
    refine ⟨fun row hr hn => hb (h.rows row hr hn), fun e he => (h.handlers e he).mono hb,
      fun e he => (h.responses e he).mono hb, fun j hn => hb ?_⟩
    by_cases hj : j = i
    case neg => rw [Clients.setFetcher_of_ne hj] at hn; exact h.fetchers j hn
    case pos =>
      cases hj
      rw [Clients.setFetcher_self] at hn
      obtain ⟨_, rfl, _⟩ | ⟨_, _, _, rfl⟩ | ⟨ids, rfl, hne, _, rfl⟩ := Fetcher.receive_cases hf
      · exact h.fetchers i hn
      · exact h.fetchers i hn
      · exact h.responses _ (hm _ rfl) hne
  case bind =>
    refine ⟨h.rows, List.forall_mem_append.mpr ⟨h.handlers, ?_⟩, h.responses, h.fetchers⟩
    exact List.forall_mem_singleton.mpr <| (late_bind h).mono hb
  case handle e db body hp he hd =>
    refine ⟨rows_handle h ho hp he hd, List.forall_mem_append.mpr ⟨h.handlers, ?_⟩, h.responses,
      h.fetchers⟩
    exact List.forall_mem_singleton.mpr <| (late_handle (h.handlers e he) hd).mono hb
  case respond hm =>
    refine ⟨h.rows, h.handlers, List.forall_mem_append.mpr ⟨h.responses, ?_⟩, h.fetchers⟩
    exact List.forall_mem_singleton.mpr <| h.handlers _ hm
  case read => exact ⟨h.rows, h.handlers, h.responses, h.fetchers⟩
  case process =>
    refine ⟨fun row hr hn => ?_, h.handlers, h.responses, h.fetchers⟩
    obtain hr | ⟨old, hold, rfl⟩ := mem_modify hr
    · exact h.rows row hr hn
    · exact h.rows old hold hn

omit [Collection] [Carbon] in
theorem spread_start {targetAmount nodes : Nat} {fetchers : Nat → String × Bool} :
    (start targetAmount t nodes fetchers).Spread where
  rows row hr hn := by
    cases List.eq_of_mem_replicate hr
    exact absurd rfl hn
  handlers _ h   := absurd h List.not_mem_nil
  responses _ h  := absurd h List.not_mem_nil
  fetchers _ h   := absurd rfl h

theorem Ordered.runs (h : s.Ordered s₀) (ha : s.Accurate t) (hp : s.Spread) (hr : Runs s s') :
    s'.Ordered s₀ ∧ s'.Accurate t ∧ s'.Spread := by
  induction hr
  case refl            => exact ⟨h, ha, hp⟩
  case tail _ hs hrest =>
    obtain ⟨h, ha, hp⟩ := hrest
    exact ⟨h.step ha hs, ha.step hs, hp.step h hs⟩

-- No node refuses to forward flos before all target pages have been stored.
theorem evil_after_propagation {targetAmount nodes i : Nat} {fetchers : Nat → String × Bool}
    (h : Runs (start targetAmount t nodes fetchers) s)
    (he : (s.clients.fetchers i).evilNoForward = true) :
    ∃ v, Runs (start targetAmount t nodes fetchers) v ∧ Runs v s ∧
      v.db.experiment.targetPages = s.targets ∧ s.targets ≠ [] ∧ v.Propagated ∧
      ∀ j, (v.clients.fetchers j).evilNoForward = false := by
  obtain ⟨ho, ha, hs⟩ := ordered_start.runs accurate_start spread_start h
  obtain ⟨hl, hv⟩ := hs.fetchers i ((ha.fetchers i).evil he).2
  obtain ⟨v, h₀, h₁, ht, hp, hn⟩ := ho.start (.inr hl) hv
  refine ⟨v, h₀, h₁, ht, ?_, hp, fun j => ?_⟩
  case refine_1 =>
    intro hz
    rw [hz] at hv
    cases hv
  case refine_2 =>
    obtain ⟨_, hav, hsv⟩ := ordered_start.runs accurate_start spread_start h₀
    by_contra hj
    have hj := ((hav.fetchers j).evil (Bool.eq_true_of_not_eq_false hj)).2
    exact hn (hsv.fetchers j hj).1

-- The target pages of a node had been stored as those of the experiment before, and it keeps them.
theorem targetPageIds_final {targetAmount nodes i : Nat} {fetchers : Nat → String × Bool}
    (h : Runs (start targetAmount t nodes fetchers) s) (h' : Runs s s')
    (hi : (s.clients.fetchers i).targetPageIds ≠ []) :
    (s'.clients.fetchers i).targetPageIds = (s.clients.fetchers i).targetPageIds ∧
    (∃ v, Runs (start targetAmount t nodes fetchers) v ∧ Runs v s ∧
      v.db.experiment.targetPages = s.targets ∧
      (s.clients.fetchers i).targetPageIds ⊆ v.db.experiment.targetPages.map Page.id) ∧
    (s.clients.fetchers i).targetPageIds.length ≤ t ∧
    (s'.clients.fetchers i).fetchedPageIds ⊆ (s.clients.fetchers i).targetPageIds := by
  obtain ⟨ho, ha, hs⟩ := ordered_start.runs accurate_start spread_start h
  have he := ha.targets_runs h' hi
  obtain ⟨hl, hv⟩ := hs.fetchers i hi
  obtain ⟨v, h₀, h₁, ht, _⟩ := ho.start (.inr hl) hv
  exact ⟨he, ⟨v, h₀, h₁, ht, ht ▸ ha.targets_subset i⟩, ha.targets_length_le i,
    he ▸ ((ha.runs h').fetchers i).fetched⟩

end Hermes.Simulation

namespace Hermes.Simulation

attribute [local instance] Carbon.cutting


theorem evil_after_propagation_oneNode : ∃ s, (s.clients.fetchers 0).evilNoForward = true ∧
    ∃ v, Runs (OneNode.begin true) v ∧ Runs v s ∧
      v.db.experiment.targetPages = s.targets ∧ s.targets ≠ [] ∧ v.Propagated ∧
      ∀ j, (v.clients.fetchers j).evilNoForward = false := by
  have h : ((OneNode.begin true).acts OneNode.untilStarted).any
      (fun s => (s.clients.fetchers 0).evilNoForward) = true := by decide +kernel
  obtain ⟨s, hs, he⟩ := Option.any_eq_true _ _ |>.mp h
  exact ⟨s, he, evil_after_propagation (runs_of_acts hs) he⟩

theorem targetPageIds_final_oneNode : ∃ s s' : Simulation,
    (s.clients.fetchers 0).targetPageIds = ["a"] ∧ (s'.clients.fetchers 0).fetchedPageIds = ["a"] ∧
    (s'.clients.fetchers 0).targetPageIds = (s.clients.fetchers 0).targetPageIds ∧
    ∃ v, Runs (OneNode.begin true) v ∧ Runs v s ∧
      (s.clients.fetchers 0).targetPageIds ⊆ v.db.experiment.targetPages.map Page.id := by
  have h : ((OneNode.begin true).acts OneNode.untilStarted).any (fun s =>
      (s.clients.fetchers 0).targetPageIds = ["a"] ∧ (s.acts (OneNode.go 4)).any
        fun s' => (s'.clients.fetchers 0).fetchedPageIds = ["a"]) = true := by decide +kernel
  obtain ⟨s, hs, hn⟩ := Option.any_eq_true _ _ |>.mp h
  obtain ⟨ht, hn⟩ := of_decide_eq_true hn
  obtain ⟨s', hs', hf⟩ := Option.any_eq_true _ _ |>.mp hn
  have hne : (s.clients.fetchers 0).targetPageIds ≠ [] := ht ▸ List.cons_ne_nil "a" []
  obtain ⟨he, ⟨v, h₀, h₁, _, hv⟩, _⟩ :=
    targetPageIds_final (runs_of_acts hs) (runs_of_acts hs') hne
  exact ⟨s, s', ht, of_decide_eq_true hf, he, v, h₀, h₁, hv⟩

end Hermes.Simulation
