import Fledger.Hermes.Simulation

namespace Hermes

namespace Fetcher

variable {f g : Fetcher} {env : FetcherEnv} {phase : FetcherPhase} {request : Option Request}
  {reply : Reply} {id : String} {ids left : List String} {data : SimulationSnapshotData} {node : Nat}

-- What holds while a fetcher is in a phase.
def At (f : Fetcher) : FetcherPhase → Prop
  | .create | .creating => f.nodeId = none
  | .polling            => f.targetPageIds = []
  | .fetch left         => left ⊆ f.targetPageIds
  | _                   => True

structure Valid (f : Fetcher) : Prop where
  fetched : f.fetchedPageIds ⊆ f.targetPageIds
  nodup   : f.fetchedPageIds.Nodup
  total   : f.state.targetSuccessfullyFetchedTotal.toNat ≤ f.fetchedPageIds.length
  status  : f.state.nodeStatus = "success" → f.Successful
  evil    : f.evilNoForward = true → f.evilNoforward = true ∧ f.targetPageIds ≠ []
  phase   : f.At f.phase

-- How a fetcher can change. The target pages are only set once.
structure Advance (f g : Fetcher) : Prop where
  evil    : g.evilNoforward = f.evilNoforward
  node    : ∀ node, f.nodeId = some node → g.nodeId = some node
  targets : f.targetPageIds ≠ [] → g.targetPageIds = f.targetPageIds
  fetched : f.fetchedPageIds <+: g.fetchedPageIds

-- What is sent is true of the fetcher.
structure Reports (f : Fetcher) (data : SimulationSnapshotData) : Prop where
  nodup  : (data.timelessMetrics.map Prod.fst).Nodup
  total  : ∀ v, (targetsFetched, v) ∈ data.timelessMetrics →
    ∃ k ≤ f.fetchedPageIds.length, v = toString k
  status : data.nodeStatus = some "success" → f.Successful
  evil   : data.evilNoForward = some true → f.evilNoforward = true

def Truthful (f : Fetcher) : Request → Prop
  | .update node data                                       => f.nodeId = some node ∧ f.Reports data
  | .storeTargetPages _ | .lostTargetPages | .startFetching => False
  | _                                                       => True

-- What a step leaves, and what it sends.
structure Good (f g : Fetcher) (request : Option Request) : Prop where
  valid    : g.Valid
  advance  : f.Advance g
  truthful : ∀ r ∈ request, g.Truthful r

-- Nothing changes but the phase, the state and the numbers.
structure Same (f g : Fetcher) : Prop where
  evil    : g.evilNoforward = f.evilNoforward
  node    : g.nodeId = f.nodeId
  targets : g.targetPageIds = f.targetPageIds
  fetched : g.fetchedPageIds = f.fetchedPageIds
  refuse  : g.evilNoForward = f.evilNoForward

theorem Advance.successful (h : f.Advance g) (hs : f.Successful) : g.Successful := by
  have ht := h.targets hs.1
  exact ⟨ht ▸ hs.1, ht ▸ List.Subset.trans hs.2 h.fetched.subset⟩

theorem Advance.reports (h : f.Advance g) (hr : f.Reports data) : g.Reports data where
  nodup     := hr.nodup
  total v hv := by
    obtain ⟨k, hk, rfl⟩ := hr.total v hv
    exact ⟨k, hk.trans h.fetched.length_le, rfl⟩
  status hs := h.successful (hr.status hs)
  evil he   := h.evil ▸ hr.evil he

theorem Same.advance (h : Same f g) : f.Advance g where
  evil      := h.evil
  node _ hn := h.node ▸ hn
  targets _ := h.targets
  fetched   := h.fetched ▸ List.prefix_refl _

theorem Same.successful (h : Same f g) (hs : f.Successful) : g.Successful :=
  h.advance.successful hs

theorem Same.valid (h : Same f g) (hf : f.Valid)
    (ht : g.state.targetSuccessfullyFetchedTotal.toNat ≤ f.fetchedPageIds.length)
    (hs : g.state.nodeStatus = "success" → f.Successful) (hp : g.At g.phase) : g.Valid where
  fetched   := by rw [h.targets, h.fetched]; exact hf.fetched
  nodup     := by rw [h.fetched]; exact hf.nodup
  total     := by rw [h.fetched]; exact ht
  status hg := h.successful (hs hg)
  evil hg   := by rw [h.evil, h.targets]; exact hf.evil (h.refuse ▸ hg)
  phase     := hp

theorem Same.good {e : Fetcher} (h : Same f e) (hg : Good e g request) : Good f g request where
  valid    := hg.valid
  truthful := hg.truthful
  advance  := {
    evil         := hg.advance.evil.trans h.evil
    node _ hn    := hg.advance.node _ (h.node ▸ hn)
    targets hn   := (hg.advance.targets (h.targets ▸ hn)).trans h.targets
    fetched      := h.fetched ▸ hg.advance.fetched
  }

theorem valid_new (nodeName : String) (evilNoforward : Bool) :
    (new nodeName evilNoforward).Valid where
  fetched  := List.Subset.refl _
  nodup    := List.nodup_nil
  total    := le_refl _
  status h := absurd (show "active" = "success" from h) (by decide)
  evil h   := absurd h Bool.false_ne_true
  phase    := rfl

-- Only the phase and the number of the iteration change.
theorem good_move (hf : f.Valid) {iteration : UInt32}
    (hp : ({ f with iteration, phase } : Fetcher).At phase) :
    Good f { f with iteration, phase } none where
  valid        := Same.valid (f := f) ⟨rfl, rfl, rfl, rfl, rfl⟩ hf hf.total hf.status hp
  advance      := Same.advance ⟨rfl, rfl, rfl, rfl, rfl⟩
  truthful _ h := by cases h

theorem valid_setStatus {nodeStatus : String} (hf : f.Valid)
    (hs : nodeStatus = "success" → f.Successful) : (f.setStatus nodeStatus).Valid :=
  Same.valid (f := f) ⟨rfl, rfl, rfl, rfl, rfl⟩ hf hf.total hs hf.phase

theorem valid_setFetchedTotal (hf : f.Valid) : f.setFetchedTotal.Valid := by
  refine Same.valid (f := f) ⟨rfl, rfl, rfl, rfl, rfl⟩ hf ?_ hf.status hf.phase
  exact (UInt32.toNat_ofNat (n := f.fetchedPageIds.length)).trans_le <| Nat.mod_le ..

theorem reports_make (hf : f.Valid) {state : SimulationState}
    (ht : state.targetSuccessfullyFetchedTotal = f.state.targetSuccessfullyFetchedTotal)
    (hs : state.nodeStatus = f.state.nodeStatus) (he : state.evilNoForward = f.evilNoforward) :
    f.Reports (Snapshot.make state).toData where
  nodup     := by
    rw [Snapshot.toData, List.map_map]
    simp only [Snapshot.make, List.map_cons, List.map_nil, Function.comp_apply]
    decide
  total v hv := by
    have hv : v = toString state.targetSuccessfullyFetchedTotal.toNat := by
      simpa [Snapshot.toData, Snapshot.make, targetsFetched] using hv
    exact ⟨_, (congrArg UInt32.toNat ht).trans_le hf.total, hv⟩
  status hv := hf.status <| hs ▸ Option.some.inj hv
  evil hv   := he ▸ Option.some.inj hv

theorem good_upload (hf : f.Valid) (h : f.updateAndUpload env phase = some (g, request))
    (hp : ∀ g : Fetcher, g.At phase) : Good f g request := by
  obtain ⟨node, hn, h⟩ := Option.map_eq_some_iff.mp h
  cases h
  refine ⟨Same.valid (f := f) ⟨rfl, rfl, rfl, rfl, rfl⟩ hf hf.total hf.status (hp _),
    Same.advance ⟨rfl, rfl, rfl, rfl, rfl⟩, ?_⟩
  rintro r ⟨⟩
  have hr : f.Reports (Snapshot.make (f.refresh env).state).toData := reports_make hf rfl rfl rfl
  refine ⟨hn, Advance.reports (f := f) (Same.advance ?_) hr⟩
  exact ⟨rfl, rfl, rfl, rfl, rfl⟩

theorem good_fetchPage (hf : f.Valid) (hp : f.phase = .fetch (id :: left)) :
    Good f (f.fetchPage env id left) none := by
  have hl : id ∈ f.targetPageIds ∧ left ⊆ f.targetPageIds := by
    have := hf.phase
    rw [hp] at this
    exact List.cons_subset.mp this
  rw [fetchPage]
  split
  case isTrue  => exact good_move hf hl.2
  case isFalse hi =>
    split
    case h_1           => exact good_move hf trivial
    case h_2 fetched _ =>
      cases fetched
      case false =>
        exact ⟨Same.valid (f := f) ⟨rfl, rfl, rfl, rfl, rfl⟩ hf hf.total hf.status hl.2,
          Same.advance ⟨rfl, rfl, rfl, rfl, rfl⟩, fun _ h => by cases h⟩
      case true =>
        refine ⟨⟨?_, ?_, ?_, ?_, hf.evil, hl.2⟩, ⟨rfl, fun _ hn => hn, fun _ => rfl, ?_⟩, ?_⟩
        case refine_1 =>
          exact List.append_subset.mpr ⟨hf.fetched, List.cons_subset.mpr ⟨hl.1, List.nil_subset _⟩⟩
        case refine_2 => exact List.concat_eq_append ▸ hf.nodup.concat hi
        case refine_3 => exact hf.total.trans <| by simp
        case refine_4 =>
          exact fun hs => ⟨(hf.status hs).1, List.Subset.trans (hf.status hs).2 <| List.subset_append_left ..⟩
        case refine_5 => exact List.prefix_append ..
        case refine_6 => exact fun _ h => by cases h

theorem good_timeout (hf : f.Valid) (hg : (f.setStatus "timeout").Valid →
    Good (f.setStatus "timeout") g request) : Good f g request :=
  Same.good (e := f.setStatus "timeout") ⟨rfl, rfl, rfl, rfl, rfl⟩ <|
    hg <| valid_setStatus hf fun h => absurd h (by decide)

theorem good_of_step (ho : ∀ ids, (env.order ids).Perm ids) (hf : f.Valid)
    (h : f.step env = some (g, request)) : Good f g request := by
  rw [step] at h
  split at h
  case h_1 hp =>
    cases h
    have hn : f.nodeId = none := by have := hf.phase; rwa [hp] at this
    exact ⟨Same.valid (f := f) ⟨rfl, rfl, rfl, rfl, rfl⟩ hf hf.total hf.status hn,
      Same.advance ⟨rfl, rfl, rfl, rfl, rfl⟩, by rintro _ ⟨⟩; trivial⟩
  case h_2 =>
    split at h
    case isTrue  => cases h; exact good_move hf trivial
    case isFalse => cases h; exact good_timeout hf fun hf => good_move hf trivial
  case h_3 =>
    split at h
    case isTrue  => exact good_timeout hf fun hf => good_upload hf h fun _ => trivial
    case isFalse => cases h; exact good_move hf trivial
  case h_4 =>
    split at h
    case isTrue  => exact good_upload hf h fun _ => trivial
    case isFalse => cases h; exact good_move hf trivial
  case h_5 =>
    split at h
    case isTrue hi =>
      obtain ⟨node, hn, h⟩ := Option.map_eq_some_iff.mp h
      cases h
      exact ⟨Same.valid (f := f) ⟨rfl, rfl, rfl, rfl, rfl⟩ hf hf.total hf.status hi.2,
        Same.advance ⟨rfl, rfl, rfl, rfl, rfl⟩, by rintro _ ⟨⟩; trivial⟩
    case isFalse => cases h; exact good_move hf trivial
  case h_6 =>
    split at h
    case isTrue  => exact good_upload hf h fun _ => trivial
    case isFalse => cases h; exact good_move hf trivial
  case h_7    => cases h; exact good_move hf (ho _).subset
  case h_8 hp => cases h; exact good_fetchPage hf hp
  case h_9    =>
    have hf := valid_setFetchedTotal hf
    refine Same.good (e := f.setFetchedTotal) ⟨rfl, rfl, rfl, rfl, rfl⟩ ?_
    split at h
    case isTrue hs =>
      refine Same.good (e := f.setFetchedTotal.setStatus "success") ⟨rfl, rfl, rfl, rfl, rfl⟩ ?_
      exact good_upload (valid_setStatus hf fun _ => hs) h fun _ => trivial
    case isFalse => cases h; exact good_move hf trivial
  case h_10 => cases h

theorem ids_of_upload (h : f.updateAndUpload env phase = some (g, request)) :
    g.nodeId = f.nodeId ∧ g.targetPageIds = f.targetPageIds := by
  obtain ⟨_, _, h⟩ := Option.map_eq_some_iff.mp h
  cases h
  exact ⟨rfl, rfl⟩

-- The ids only come from replies.
theorem ids_of_step (h : f.step env = some (g, request)) :
    g.nodeId = f.nodeId ∧ g.targetPageIds = f.targetPageIds := by
  rw [step] at h
  split at h
  case h_1 | h_7 => cases h; exact ⟨rfl, rfl⟩
  case h_2       => split at h <;> cases h <;> exact ⟨rfl, rfl⟩
  case h_5       =>
    split at h
    case isTrue  => obtain ⟨_, _, h⟩ := Option.map_eq_some_iff.mp h; cases h; exact ⟨rfl, rfl⟩
    case isFalse => cases h; exact ⟨rfl, rfl⟩
  case h_8       =>
    cases h
    rw [fetchPage]
    split
    case isTrue  => exact ⟨rfl, rfl⟩
    case isFalse => split <;> exact ⟨rfl, rfl⟩
  case h_10      => cases h
  all_goals
    split at h
    case isTrue  => exact (ids_of_upload h).imp (·.trans rfl) (·.trans rfl)
    case isFalse => cases h; exact ⟨rfl, rfl⟩

-- A reply is only looked at if it is the one with the id, or one with target pages.
theorem receive_cases (h : f.receive reply = some g) :
    (∃ phase, g = { f with phase } ∧ ∀ g : Fetcher, g.At phase) ∨
    (∃ node, reply = some (.id node) ∧ f.phase = .creating ∧
      g = { f with nodeId := some node, phase := .connect }) ∨
    ∃ ids, reply = some (.targetPageIds ids) ∧ ids ≠ [] ∧ f.phase = .polling ∧
      g = { f.setTargets ids with phase := .upload } := by
  cases hp : f.phase <;> simp only [receive, hp, reduceCtorEq] at h
  case creating =>
    cases reply
    case none      => cases h; exact .inl ⟨_, rfl, fun _ => trivial⟩
    case some body =>
      cases body <;> cases h
      case id node => exact .inr <| .inl ⟨node, rfl, rfl, rfl⟩
      all_goals exact .inl ⟨_, rfl, fun _ => trivial⟩
  case polling =>
    split at h
    case h_2           => cases h; exact .inl ⟨_, rfl, fun _ => trivial⟩
    case h_1 id ids hr =>
      cases h
      obtain ⟨r, rfl, hr⟩ := Option.bind_eq_some_iff.mp hr
      cases r <;> cases hr
      exact .inr <| .inr ⟨_, rfl, List.cons_ne_nil _ _, rfl, rfl⟩
  all_goals cases h; exact .inl ⟨_, rfl, fun _ => trivial⟩

theorem good_of_receive (hf : f.Valid) (h : f.receive reply = some g) : Good f g none := by
  obtain ⟨phase, rfl, hp⟩ | ⟨node, rfl, hp, rfl⟩ | ⟨ids, rfl, hi, hp, rfl⟩ := receive_cases h
  case inl => exact good_move hf (hp _)
  case inr.inl =>
    have hn : f.nodeId = none := by have := hf.phase; rwa [hp] at this
    refine ⟨⟨hf.fetched, hf.nodup, hf.total, hf.status, hf.evil, trivial⟩, ?_, fun _ h => by cases h⟩
    refine ⟨rfl, fun _ h => ?_, fun _ => rfl, List.prefix_refl _⟩
    cases hn.symm.trans h
  case inr.inr =>
    have ht : f.targetPageIds = [] := by have := hf.phase; rwa [hp] at this
    have he : f.fetchedPageIds = [] := List.subset_nil.mp (ht ▸ hf.fetched)
    have hd : ids.dedup ≠ [] := by simpa using hi
    refine ⟨⟨?_, hf.nodup, hf.total, ?_, ?_, trivial⟩, ?_, fun _ h => by cases h⟩
    case refine_1 => exact he ▸ List.nil_subset _
    case refine_2 => exact fun hs => absurd ht (hf.status hs).1
    case refine_3 =>
      intro h
      obtain h | h := (Bool.or_eq_true ..).mp h
      · exact absurd ht (hf.evil h).2
      · exact ⟨h, hd⟩
    case refine_4 => exact ⟨rfl, fun _ h => h, fun h => absurd ht h, List.prefix_refl _⟩

end Fetcher

namespace Creator

variable {c d : Creator} {env : CreatorEnv} {request : Option Request} {reply : Reply}

-- The pages do not change after they have been created.
structure Advance (c d : Creator) : Prop where
  phase : c.phase ≠ .create → d.phase ≠ .create
  pages : c.phase ≠ .create → d.targetPages = c.targetPages

def Truthful (c : Creator) : Request → Prop
  | .storeTargetPages pages => c.phase ≠ .create ∧ pages = c.targetPages
  | .update _ _             => False
  | _                       => True

theorem step_cases (h : c.step env = some (d, request)) :
    (c.phase = .create ∧ request = none ∧
      ((∃ targetPages, d = { c with targetPages }) ∨ d = { c with phase := .ended })) ∨
    ∃ phase r, d = { c with phase, requests := c.requests + 1 } ∧ request = some r ∧
      (c.phase = .create ∧ phase = .storing ∧ r = .storeTargetPages c.targetPages ∨
        c.phase = .query ∧ phase = .querying ∧ r = .lostTargetPages ∨
        c.phase = .start ∧ phase = .starting ∧ r = .startFetching) := by
  cases hp : c.phase <;> simp only [step, hp, reduceCtorEq] at h
  case create =>
    split at h
    case isTrue  =>
      split at h <;> cases h
      · exact .inl ⟨rfl, rfl, .inl ⟨_, rfl⟩⟩
      · exact .inl ⟨rfl, rfl, .inr rfl⟩
    case isFalse => cases h; exact .inr ⟨_, _, rfl, rfl, .inl ⟨rfl, rfl, rfl⟩⟩
  case query => cases h; exact .inr ⟨_, _, rfl, rfl, .inr <| .inl ⟨rfl, rfl, rfl⟩⟩
  case start => cases h; exact .inr ⟨_, _, rfl, rfl, .inr <| .inr ⟨rfl, rfl, rfl⟩⟩

theorem advance_of_step (h : c.step env = some (d, request)) :
    c.Advance d ∧ ∀ r ∈ request, d.Truthful r := by
  obtain ⟨hp, rfl, _⟩ | ⟨phase, r, rfl, rfl, hp⟩ := step_cases h
  case inl => exact ⟨⟨fun h => absurd hp h, fun h => absurd hp h⟩, fun _ h => by cases h⟩
  case inr =>
    constructor
    case left  =>
      refine ⟨fun _ => ?_, fun _ => rfl⟩
      obtain ⟨_, rfl, _⟩ | ⟨_, rfl, _⟩ | ⟨_, rfl, _⟩ := hp <;> nofun
    case right =>
      rintro _ ⟨⟩
      obtain ⟨_, rfl, rfl⟩ | ⟨_, rfl, rfl⟩ | ⟨_, rfl, rfl⟩ := hp
      · exact ⟨nofun, rfl⟩
      all_goals trivial

theorem receive_cases (h : c.receive env reply = some d) : ∃ phase, d = { c with phase } ∧
    (phase = .ended ∨ c.phase = .storing ∧ reply ≠ none ∧ phase = .query ∨
      c.phase = .querying ∧ phase = .query ∨ c.phase = .querying ∧ reply = some (.lostTargetPages []) ∧ phase = .start ∨
      c.phase = .starting ∧ phase = .forever) := by
  cases hp : c.phase <;> simp only [receive, hp, reduceCtorEq] at h
  case storing =>
    cases h
    exact ⟨_, rfl, by cases reply <;> simp⟩
  case starting =>
    cases h
    exact ⟨_, rfl, by cases reply <;> simp⟩
  case querying =>
    split at h
    case h_2      => cases h; exact ⟨_, rfl, .inl rfl⟩
    case h_1 lost =>
      split at h
      case isTrue  => cases h; exact ⟨_, rfl, .inl rfl⟩
      case isFalse =>
        split at h
        case isTrue hl => cases h; cases hl; exact ⟨_, rfl, by simp⟩
        case isFalse   => cases h; exact ⟨_, rfl, by cases env.stored <;> simp⟩

theorem advance_of_receive (h : c.receive env reply = some d) : c.Advance d := by
  obtain ⟨phase, rfl, hp⟩ := receive_cases h
  refine ⟨fun _ => ?_, fun _ => rfl⟩
  obtain rfl | ⟨_, _, rfl⟩ | ⟨_, rfl⟩ | ⟨_, _, rfl⟩ | ⟨_, rfl⟩ := hp <;> nofun

end Creator

end Hermes
