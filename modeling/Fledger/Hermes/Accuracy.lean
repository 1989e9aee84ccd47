import Mathlib.Algebra.Order.BigOperators.Group.List
import Mathlib.Algebra.Order.Group.Nat
import Mathlib.Data.List.Perm.Subperm
import Fledger.Hermes.Clients

namespace Hermes

namespace TimelessDataPoint

variable {name v : String} {rows read stored : List TimelessDataPoint} {row : TimelessDataPoint}
  {m : String × String} {metrics : List (String × String)} {bound : Nat}

theorem number_of_value {k : Nat} (h : row.value = toString k) : row.number = k := by
  rw [number, h]
  exact (congrArg (Nat.ofDigitChars 10 · 0) Nat.toList_repr).trans Nat.ofDigitChars_ten_toDigits

theorem map_name_set : (set name v rows).map TimelessDataPoint.name = rows.map (·.name) := by
  induction rows
  case nil            => rfl
  case cons row rows hi =>
    rw [set]
    split
    case isTrue  => rfl
    case isFalse => rw [List.map_cons, hi, List.map_cons]

theorem of_mem_set (h : row ∈ set name v rows) : row ∈ rows ∨ (row.name, row.value) = (name, v) := by
  induction rows
  case nil              => exact .inl h
  case cons first rows hi =>
    rw [set] at h
    split at h
    case isTrue he  =>
      obtain rfl | h := List.mem_cons.mp h
      · exact .inr <| Prod.ext he rfl
      · exact .inl <| List.mem_cons_of_mem _ h
    case isFalse =>
      obtain rfl | h := List.mem_cons.mp h
      · exact .inl List.mem_cons_self
      · exact (hi h).imp (List.mem_cons_of_mem _) id

theorem of_mem_save (h : row ∈ save read stored m) : row ∈ stored ∨ (row.name, row.value) = m := by
  rw [save] at h
  split at h
  case h_1 =>
    split at h
    case isTrue  => exact .inl h
    case isFalse => exact of_mem_set h
  case h_2 =>
    obtain h | h := List.mem_append.mp h
    · exact .inl h
    · cases List.mem_singleton.mp h
      exact .inr rfl

theorem of_mem_foldl (h : row ∈ metrics.foldl (save read) stored) :
    row ∈ stored ∨ (row.name, row.value) ∈ metrics := by
  induction metrics generalizing stored
  case nil               => exact .inl h
  case cons m metrics hi =>
    obtain h | h := hi h
    · exact (of_mem_save h).imp id fun h => List.mem_cons.mpr (.inl h)
    · exact .inr <| List.mem_cons_of_mem _ h

theorem count_save (hm : m.1 = name → (stored.map TimelessDataPoint.name).count name =
      (read.map TimelessDataPoint.name).count name)
    (h : (stored.map TimelessDataPoint.name).count name ≤ 1) :
    ((save read stored m).map TimelessDataPoint.name).count name ≤ 1 ∧
    (m.1 ≠ name → ((save read stored m).map TimelessDataPoint.name).count name =
      (stored.map TimelessDataPoint.name).count name) := by
  rw [save]
  split
  case h_1 =>
    split
    case isTrue  => exact ⟨h, fun _ => rfl⟩
    case isFalse => rw [map_name_set]; exact ⟨h, fun _ => rfl⟩
  case h_2 hr =>
    have hz : m.1 = name → (stored.map TimelessDataPoint.name).count name = 0 := by
      rintro rfl
      rw [hm rfl, List.count_eq_zero]
      intro hn
      obtain ⟨row, hrow, he⟩ := List.mem_map.mp hn
      exact List.find?_eq_none.mp hr row hrow (decide_eq_true he)
    by_cases he : m.1 = name
    case pos => simp [he, hz he]
    case neg => simpa [List.count_singleton, he] using h

-- A metric never gets a second row.
theorem count_foldl (hn : (metrics.map Prod.fst).Nodup)
    (hm : name ∈ metrics.map Prod.fst → (stored.map TimelessDataPoint.name).count name =
      (read.map TimelessDataPoint.name).count name)
    (h : (stored.map TimelessDataPoint.name).count name ≤ 1) :
    ((metrics.foldl (save read) stored).map TimelessDataPoint.name).count name ≤ 1 := by
  induction metrics generalizing stored
  case nil               => exact h
  case cons m metrics hi =>
    rw [List.map_cons, List.nodup_cons] at hn
    have hs := count_save (m := m) (fun he => hm (he ▸ List.mem_cons_self)) h
    refine hi hn.2 (fun hin => ?_) hs.1
    have he : m.1 ≠ name := fun he => hn.1 (he ▸ hin)
    rw [hs.2 he]
    exact hm <| List.mem_cons_of_mem _ hin

theorem total_le (hc : (rows.map TimelessDataPoint.name).count name ≤ 1)
    (hb : ∀ row ∈ rows, row.name = name → row.number ≤ bound) : total name rows ≤ bound := by
  have hl : (rows.filter (·.name = name)).length ≤ 1 := by
    rw [← List.countP_eq_length_filter]
    rw [List.count, List.countP_map] at hc
    exact (List.countP_mono_left fun _ _ h => by simpa using h).trans hc
  have hf : ∀ row ∈ rows.filter (·.name = name), row.number ≤ bound := fun row h =>
    hb row (List.mem_of_mem_filter h) <| of_decide_eq_true (List.mem_filter.mp h).2
  rw [total]
  generalize rows.filter (·.name = name) = filtered at hl hf ⊢
  match filtered, hl with
  | [], _    => exact Nat.zero_le _
  | [row], _ => simpa using hf

end TimelessDataPoint

namespace NodeUpdateJob

-- What a job does not have, is left as it is.
theorem save_getD {A : Type*} [DecidableEq A] (a : Option A) (read stored : A) :
    Node.save read (a.getD read) stored = stored ∨ a = some (Node.save read (a.getD read) stored) := by
  rw [Node.save]
  split
  case isTrue    => exact .inl rfl
  case isFalse h =>
    cases a
    case none   => exact absurd rfl h
    case some a => exact .inr rfl

end NodeUpdateJob

namespace Clients

variable {p q : Clients} {t node : Nat} {pages all : List Page} {data : SimulationSnapshotData}
  {row : Node}

structure Advance (p q : Clients) : Prop where
  creator  : p.creator.Advance q.creator
  fetchers : ∀ i, (p.fetchers i).Advance (q.fetchers i)

-- The target pages are not known, or those of the creator.
def Stored (p : Clients) (pages : List Page) : Prop :=
  pages = [] ∨ p.creator.phase ≠ .create ∧ pages = p.creator.targetPages

-- Some of the target pages, as many as a node gets.
def Chosen (p : Clients) (t : Nat) (pages : List Page) : Prop :=
  ∃ all l : List Page, p.Stored all ∧ l.Perm all ∧ pages = l.take t

-- One of the fetchers is this node.
def Reported (p : Clients) (node : Nat) (data : SimulationSnapshotData) : Prop :=
  ∃ i, (p.fetchers i).nodeId = some node ∧ (p.fetchers i).Reports data

-- What the database has of a node is true of a fetcher.
structure Accurate (p : Clients) (node : Nat) (row : Node) : Prop where
  single : (row.timelessDataPoints.map TimelessDataPoint.name).count targetsFetched ≤ 1
  total  : ∀ r ∈ row.timelessDataPoints, r.name = targetsFetched →
    ∃ i, (p.fetchers i).nodeId = some node ∧ r.number ≤ (p.fetchers i).fetchedPageIds.length
  status : row.status = "success" →
    ∃ i, (p.fetchers i).nodeId = some node ∧ (p.fetchers i).Successful
  evil   : row.evilNoforward = true →
    ∃ i, (p.fetchers i).nodeId = some node ∧ (p.fetchers i).evilNoforward = true

def TrueRequest (p : Clients) : Request → Prop
  | .storeTargetPages pages => p.Stored pages
  | .update node data       => p.Reported node data
  | _                       => True

def TrueResponse (p : Clients) (t : Nat) : Response → Prop
  | .targetPageIds ids => ∃ pages, p.Chosen t pages ∧ ids = pages.map Page.id
  | _                  => True

def TrueHandler (p : Clients) (t : Nat) : Handler → Prop
  | .storeNode                 => True
  | .storeTargetPages pages    => p.Stored pages
  | .lostTargetPages pages     => p.Stored pages
  | .startFetching pages _     => p.Stored pages
  | .update node pages data    => p.Chosen t pages ∧ p.Reported node data
  | .setTargetPages _ read _   => p.Chosen t read.targetPages
  | .response response         => p.TrueResponse t response

theorem Advance.stored (h : p.Advance q) (hs : p.Stored pages) : q.Stored pages :=
  hs.imp id fun hs => ⟨h.creator.phase hs.1, hs.2.trans (h.creator.pages hs.1).symm⟩

theorem Advance.chosen (h : p.Advance q) : p.Chosen t pages → q.Chosen t pages := by
  rintro ⟨all, l, hs, hl, rfl⟩
  exact ⟨all, l, h.stored hs, hl, rfl⟩

theorem Advance.reported (h : p.Advance q) : p.Reported node data → q.Reported node data := by
  rintro ⟨i, hi, hr⟩
  exact ⟨i, (h.fetchers i).node _ hi, (h.fetchers i).reports hr⟩

theorem Advance.accurate (h : p.Advance q) (ha : p.Accurate node row) : q.Accurate node row where
  single       := ha.single
  total r hr hn := by
    obtain ⟨i, hi, hl⟩ := ha.total r hr hn
    exact ⟨i, (h.fetchers i).node _ hi, hl.trans (h.fetchers i).fetched.length_le⟩
  status hs    := by
    obtain ⟨i, hi, hs⟩ := ha.status hs
    exact ⟨i, (h.fetchers i).node _ hi, (h.fetchers i).successful hs⟩
  evil he      := by
    obtain ⟨i, hi, he⟩ := ha.evil he
    exact ⟨i, (h.fetchers i).node _ hi, (h.fetchers i).evil.trans he⟩

theorem Advance.trueRequest (h : p.Advance q) {r : Request} (hr : p.TrueRequest r) :
    q.TrueRequest r := by
  cases r <;> first | exact h.stored hr | exact h.reported hr | trivial

theorem Advance.trueResponse (h : p.Advance q) {r : Response} (hr : p.TrueResponse t r) :
    q.TrueResponse t r := by
  cases r <;> try trivial
  obtain ⟨pages, hc, rfl⟩ := hr
  exact ⟨pages, h.chosen hc, rfl⟩

theorem Advance.trueHandler (h : p.Advance q) {r : Handler} (hr : p.TrueHandler t r) :
    q.TrueHandler t r := by
  cases r
  case storeNode        => trivial
  case storeTargetPages => exact h.stored hr
  case lostTargetPages  => exact h.stored hr
  case startFetching    => exact h.stored hr
  case update           => exact ⟨h.chosen hr.1, h.reported hr.2⟩
  case setTargetPages   => exact h.chosen hr
  case response         => exact h.trueResponse hr

theorem chosen_nil : p.Chosen t [] :=
  ⟨[], [], .inl rfl, .refl _, List.take_nil.symm⟩

theorem accurate_create : p.Accurate node ExperimentNode.create.toNode where
  single       := Nat.zero_le _
  total _ h    := absurd h List.not_mem_nil
  status h     := absurd (show "active" = "success" from h) (by decide)
  evil h       := absurd h Bool.false_ne_true

-- A job only writes what the fetcher has reported.
theorem Accurate.processUpdate [Carbon] {job : NodeUpdateJob} {read : Node}
    (h : p.Accurate node row) (hr : p.Reported node job.data) : p.Accurate node (job.processUpdate read row) := by
  obtain ⟨i, hi, hr⟩ := hr
  have hs : (job.processUpdate read row).status = row.status ∨
      job.data.nodeStatus = some (job.processUpdate read row).status :=
    NodeUpdateJob.save_getD ..
  have he : (job.processUpdate read row).evilNoforward = row.evilNoforward ∨
      job.data.evilNoForward = some (job.processUpdate read row).evilNoforward :=
    NodeUpdateJob.save_getD ..
  have ht : ∀ r ∈ (job.processUpdate read row).timelessDataPoints,
      r ∈ row.timelessDataPoints ∨ (r.name, r.value) ∈ job.data.timelessMetrics := by
    rw [NodeUpdateJob.processUpdate]
    intro r hr
    dsimp only at hr
    split at hr
    case isTrue  => exact TimelessDataPoint.of_mem_foldl hr
    case isFalse => exact .inl hr
  refine ⟨?_, fun r hin hn => ?_, fun h => ?_, fun h => ?_⟩
  case refine_1 =>
    rw [NodeUpdateJob.processUpdate]
    dsimp only
    split
    case isTrue  => exact TimelessDataPoint.count_foldl hr.nodup (fun _ => rfl) h.single
    case isFalse => exact h.single
  case refine_2 =>
    obtain hin | hin := ht r hin
    · exact h.total r hin hn
    · obtain ⟨k, hk, hv⟩ := hr.total r.value (hn ▸ hin)
      exact ⟨i, hi, TimelessDataPoint.number_of_value hv ▸ hk⟩
  case refine_3 hj =>
    obtain hs | hs := hs
    · exact hj.status (hs ▸ h)
    · exact ⟨i, hi, hr.status (h ▸ hs)⟩
  case refine_4 hj =>
    obtain he | he := he
    · exact hj.evil (he ▸ h)
    · exact ⟨i, hi, hr.evil (h ▸ he)⟩

end Clients

namespace Clients

variable {p : Clients} {i : Nat} {f : Fetcher} {c : Creator}

theorem setFetcher_self : (p.setFetcher i f).fetchers i = f :=
  Function.update_self ..

theorem setFetcher_of_ne {j : Nat} (h : j ≠ i) : (p.setFetcher i f).fetchers j = p.fetchers j :=
  Function.update_of_ne h ..

theorem advance_setFetcher (h : (p.fetchers i).Advance f) : p.Advance (p.setFetcher i f) where
  creator    := ⟨id, fun _ => rfl⟩
  fetchers j := by
    by_cases hj : j = i
    case pos => rw [hj, setFetcher_self]; exact h
    case neg =>
      rw [setFetcher_of_ne hj]
      exact ⟨rfl, fun _ => id, fun _ => rfl, List.prefix_refl _⟩

theorem advance_creator (h : p.creator.Advance c) : p.Advance { p with creator := c } where
  creator    := h
  fetchers _ := ⟨rfl, fun _ => id, fun _ => rfl, List.prefix_refl _⟩

end Clients

namespace Simulation

variable {s s' : Simulation} {t targetAmount nodes : Nat} {q : Clients}
  {fetchers : Nat → String × Bool}

structure Accurate (t : Nat) (s : Simulation) : Prop where
  perNode   : s.db.experiment.targetsPerNode = t
  stored    : s.clients.Stored s.db.experiment.targetPages
  rows      : ∀ node row, s.db.experiment.nodes[node]? = some row →
    s.clients.Accurate node row.toNode ∧ s.clients.Chosen t row.targetPages
  jobs      : ∀ e ∈ s.db.jobs, s.clients.Reported e.1 e.2.data
  reads     : ∀ e ∈ s.reads, s.clients.Reported e.1 e.2.1.data
  fetchers  : ∀ i, (s.clients.fetchers i).Valid
  targets   : ∀ i, ∃ pages, s.clients.Chosen t pages ∧
    (s.clients.fetchers i).targetPageIds = (pages.map Page.id).dedup
  requests  : ∀ e ∈ s.requests, s.clients.TrueRequest e.body
  handlers  : ∀ e ∈ s.handlers, s.clients.TrueHandler t e.body
  responses : ∀ e ∈ s.responses, s.clients.TrueResponse t e.body

-- What is true stays true.
theorem Accurate.advance (h : s.Accurate t) (ha : s.clients.Advance q)
    (hf : ∀ i, (q.fetchers i).Valid)
    (ht : ∀ i, ∃ pages, q.Chosen t pages ∧ (q.fetchers i).targetPageIds = (pages.map Page.id).dedup) :
    { s with clients := q }.Accurate t where
  perNode             := h.perNode
  stored              := ha.stored h.stored
  rows node row hr    := (h.rows node row hr).imp ha.accurate ha.chosen
  jobs e he           := ha.reported (h.jobs e he)
  reads e he          := ha.reported (h.reads e he)
  fetchers            := hf
  targets             := ht
  requests e he       := ha.trueRequest (h.requests e he)
  handlers e he       := ha.trueHandler (h.handlers e he)
  responses e he      := ha.trueResponse (h.responses e he)

theorem Accurate.request (h : s.Accurate t) {client : Client} {number : Nat}
    {request : Option Request} (hr : ∀ r ∈ request, s.clients.TrueRequest r) :
    { s with requests := s.requests ++ sent client number request }.Accurate t where
  perNode   := h.perNode
  stored    := h.stored
  rows      := h.rows
  jobs      := h.jobs
  reads     := h.reads
  fetchers  := h.fetchers
  targets   := h.targets
  handlers  := h.handlers
  responses := h.responses
  requests  := List.forall_mem_append.mpr ⟨h.requests, by
    rintro e he
    obtain ⟨r, hr', rfl⟩ := List.mem_map.mp he
    exact hr r <| by simpa using hr'⟩

theorem Accurate.modifyNode (h : s.Accurate t) {node : Nat} {f : ExperimentNode → ExperimentNode}
    (hf : ∀ row, s.clients.Accurate node row.toNode ∧ s.clients.Chosen t row.targetPages →
      s.clients.Accurate node (f row).toNode ∧ s.clients.Chosen t (f row).targetPages) :
    { s with db := s.db.modifyNode node f }.Accurate t where
  perNode       := h.perNode
  stored        := h.stored
  jobs          := h.jobs
  reads         := h.reads
  fetchers      := h.fetchers
  targets       := h.targets
  requests      := h.requests
  handlers      := h.handlers
  responses     := h.responses
  rows n row hr := by
    simp only [Database.modifyNode, List.getElem?_modify, Option.map_eq_map,
      Option.map_eq_some_iff] at hr
    obtain ⟨old, ho, rfl⟩ := hr
    split
    case isTrue hn => cases hn; exact hf old (h.rows node old ho)
    case isFalse   => exact h.rows n old ho

-- Only the experiment may differ from the truth as its request does.
theorem trueHandler_bind (h : s.Accurate t) {request : Request}
    (hr : s.clients.TrueRequest request) : s.clients.TrueHandler t (s.db.bind request) := by
  cases request <;> rw [Database.bind]
  case storeNode => split <;> trivial
  case storeTargetPages => split <;> first | exact hr | trivial
  case lostTargetPages => exact h.stored
  case startFetching => exact h.stored
  case update =>
    split
    case h_2 => trivial
    case h_1 hn => split <;> first | exact ⟨(h.rows _ _ hn).2, hr⟩ | trivial
  case setTargetPages =>
    split
    case h_2 => trivial
    case h_1 hn => split <;> first | exact (h.rows _ _ hn).2 | trivial

variable [Collection] [Carbon]

omit [Carbon] in
theorem Accurate.handle (h : s.Accurate t) {env : HandlerEnv} {handler body : Handler} {db : Database}
    (hp : ∀ pages, (env.shuffle pages).Perm pages) (hh : s.clients.TrueHandler t handler)
    (hs : s.db.handle env handler = (db, body)) :
    { s with db }.Accurate t ∧ s.clients.TrueHandler t body := by
  cases handler
  case storeNode =>
    cases hs
    refine ⟨{ h with rows := fun node row hr => ?_ }, trivial⟩
    rw [List.getElem?_append, List.getElem?_singleton] at hr
    split at hr
    case isTrue  => exact h.rows node row hr
    case isFalse =>
      split at hr <;> cases hr
      exact ⟨Clients.accurate_create, Clients.chosen_nil⟩
  case storeTargetPages => cases hs; exact ⟨{ h with stored := hh }, trivial⟩
  case lostTargetPages  => cases hs; exact ⟨h, trivial⟩
  case startFetching pages left =>
    cases left <;> cases hs
    case nil => exact ⟨h, trivial⟩
    case cons node left =>
      refine ⟨h.modifyNode fun row hr => ⟨hr.1, ?_⟩, hh⟩
      exact ⟨pages, _, hh, hp pages, congrArg (List.take · (env.shuffle pages)) h.perNode⟩
  case update node pages data =>
    cases hs
    refine ⟨{ h with jobs := ?_ }, pages, hh.1, rfl⟩
    exact List.forall_mem_append.mpr ⟨h.jobs, List.forall_mem_singleton.mpr hh.2⟩
  case setTargetPages => cases hs; exact ⟨h.modifyNode fun _ => id, _, hh, rfl⟩
  case response       => cases hs; exact ⟨h, hh⟩

omit [Collection] [Carbon] in
-- A fetcher goes on, or gets its target pages.
theorem Accurate.setFetcher (h : s.Accurate t) {i : Nat} {f : Fetcher} {request : Option Request}
    (hf : (s.clients.fetchers i).Good f request)
    (ht : f.targetPageIds = (s.clients.fetchers i).targetPageIds ∨ ∃ pages,
      s.clients.Chosen t pages ∧ f.targetPageIds = (pages.map Page.id).dedup) :
    { s with clients := s.clients.setFetcher i f }.Accurate t := by
  have ha := Clients.advance_setFetcher hf.advance
  refine h.advance ha (fun j => ?_) fun j => ?_
  all_goals by_cases hj : j = i
  case pos => rw [hj, Clients.setFetcher_self]; exact hf.valid
  case neg => rw [Clients.setFetcher_of_ne hj]; exact h.fetchers j
  case pos =>
    rw [hj, Clients.setFetcher_self]
    obtain he | ⟨pages, hc, he⟩ := ht
    · obtain ⟨pages, hc, hp⟩ := h.targets i
      exact ⟨pages, ha.chosen hc, he.trans hp⟩
    · exact ⟨pages, ha.chosen hc, he⟩
  case neg =>
    rw [Clients.setFetcher_of_ne hj]
    obtain ⟨pages, hc, hp⟩ := h.targets j
    exact ⟨pages, ha.chosen hc, hp⟩

theorem Accurate.step (h : s.Accurate t) (hs : Step s s') : s'.Accurate t := by
  cases hs
  case creator hc =>
    obtain ⟨ha, hr⟩ := Creator.advance_of_step hc
    have ha := Clients.advance_creator ha
    refine (h.advance ha h.fetchers ?_).request fun r hm => ?_
    case refine_1 => exact fun i => (h.targets i).imp fun _ ht => ⟨ha.chosen ht.1, ht.2⟩
    case refine_2 =>
      have := hr r hm
      cases r <;> first | exact .inr this | exact this.elim | trivial
  case replyCreator hc =>
    have ha := Clients.advance_creator <| Creator.advance_of_receive hc
    exact h.advance ha h.fetchers fun i => (h.targets i).imp fun _ ht => ⟨ha.chosen ht.1, ht.2⟩
  case fetcher i _ f _ ho hf =>
    have hg := Fetcher.good_of_step ho (h.fetchers i) hf
    refine (h.setFetcher hg ?_).request fun r hm => ?_
    case refine_1 => exact .inl (Fetcher.ids_of_step hf).2
    case refine_2 =>
      have ht := hg.truthful r hm
      cases r
      case update node data =>
        refine ⟨i, ?_⟩
        rw [Clients.setFetcher_self]
        exact ht
      all_goals first | exact ht.elim | trivial
  case replyFetcher i f _ hm hf =>
    have hg := Fetcher.good_of_receive (h.fetchers i) hf
    refine h.setFetcher hg ?_
    obtain ⟨_, rfl, _⟩ | ⟨_, _, _, rfl⟩ | ⟨ids, rfl, _, _, rfl⟩ := Fetcher.receive_cases hf
    · exact .inl rfl
    · exact .inl rfl
    · obtain ⟨pages, hc, rfl⟩ := h.responses _ <| hm _ rfl
      exact .inr ⟨pages, hc, rfl⟩
  case bind hr =>
    have hb := trueHandler_bind h (h.requests _ hr)
    exact { h with handlers := List.forall_mem_append.mpr ⟨h.handlers, List.forall_mem_singleton.mpr hb⟩ }
  case handle handler db body hp hm hs =>
    have hh := h.handle hp (h.handlers _ hm) hs
    exact { hh.1 with handlers := List.forall_mem_append.mpr ⟨h.handlers, List.forall_mem_singleton.mpr hh.2⟩ }
  case respond hm =>
    have hr := h.handlers _ hm
    exact { h with responses := List.forall_mem_append.mpr ⟨h.responses, List.forall_mem_singleton.mpr hr⟩ }
  case read hj _ =>
    have hr := h.jobs _ hj
    exact { h with reads := List.forall_mem_append.mpr ⟨h.reads, List.forall_mem_singleton.mpr hr⟩ }
  case process hr =>
    exact h.modifyNode fun row hrow => ⟨hrow.1.processUpdate (h.reads _ hr), hrow.2⟩

omit [Collection] [Carbon] in
theorem accurate_start : (start targetAmount t nodes fetchers).Accurate t where
  perNode         := rfl
  stored          := .inl rfl
  rows _ row hr   := by
    cases List.eq_of_mem_replicate <| List.mem_of_getElem? hr
    exact ⟨Clients.accurate_create, Clients.chosen_nil⟩
  jobs _ h        := absurd h List.not_mem_nil
  reads _ h       := absurd h List.not_mem_nil
  fetchers _      := Fetcher.valid_new ..
  targets _       := ⟨[], Clients.chosen_nil, rfl⟩
  requests _ h    := absurd h List.not_mem_nil
  handlers _ h    := absurd h List.not_mem_nil
  responses _ h   := absurd h List.not_mem_nil

theorem Accurate.runs (h : s.Accurate t) (hr : Runs s s') : s'.Accurate t := by
  induction hr
  case refl            => exact h
  case tail _ hs hrest => exact hrest.step hs

omit [Collection] [Carbon] in
theorem Accurate.targets_length_le (h : s.Accurate t) (i : Nat) :
    (s.clients.fetchers i).targetPageIds.length ≤ t := by
  obtain ⟨pages, ⟨all, l, _, _, rfl⟩, hp⟩ := h.targets i
  calc (s.clients.fetchers i).targetPageIds.length
    _ = ((l.take t).map Page.id).dedup.length := congrArg _ hp
    _ ≤ ((l.take t).map Page.id).length       := (List.dedup_sublist _).length_le
    _ ≤ t                                     := by simp

omit [Collection] [Carbon] in
theorem Accurate.targets_subset (h : s.Accurate t) (i : Nat) :
    (s.clients.fetchers i).targetPageIds ⊆ s.clients.creator.targetPages.map Page.id := by
  obtain ⟨_, ⟨all, l, hs, hl, rfl⟩, hp⟩ := h.targets i
  have hall : all ⊆ s.clients.creator.targetPages := by
    obtain rfl | ⟨_, rfl⟩ := hs
    · exact List.nil_subset _
    · exact List.Subset.refl _
  rw [hp]
  refine List.Subset.trans (List.dedup_subset _) <| List.map_subset _ ?_
  exact List.Subset.trans (List.take_subset ..) <| List.Subset.trans hl.subset hall

omit [Collection] [Carbon] in
theorem Accurate.fetched_le (h : s.Accurate t) (i : Nat) :
    (s.clients.fetchers i).fetchedPageIds.length ≤ t :=
  have hv := h.fetchers i
  (hv.nodup.subperm hv.fetched).length_le.trans <| h.targets_length_le i

-- The success rate never gets above one, in whatever order the updates come in.
theorem totalFetched_le (h : Runs (start targetAmount t nodes fetchers) s) :
    s.db.experiment.totalFetched ≤ s.db.experiment.totalExpected := by
  have ha := accurate_start.runs h
  rw [Experiment.totalFetched, Experiment.totalExpected, ha.perNode]
  refine (List.sum_le_card_nsmul _ t fun n hn => ?_).trans_eq ?_
  case refine_1 =>
    obtain ⟨row, hr, rfl⟩ := List.mem_map.mp hn
    obtain ⟨node, hr⟩ := List.mem_iff_getElem?.mp <| List.mem_of_mem_filter hr
    have hr := (ha.rows node row hr).1
    refine TimelessDataPoint.total_le hr.single fun r hm hname => ?_
    obtain ⟨i, _, hl⟩ := hr.total r hm hname
    exact hl.trans <| ha.fetched_le i
  case refine_2 => rw [List.length_map]; rfl

omit [Collection] [Carbon] in
attribute [local instance] Carbon.cutting in
theorem totalFetched_le_oneNode : ∃ s : Simulation, s.db.experiment.totalFetched = 1 ∧
    s.db.experiment.totalFetched ≤ s.db.experiment.totalExpected := by
  have h : ((OneNode.begin false).acts OneNode.untilFetched).any
      (fun s => s.db.experiment.totalFetched = 1) = true := by decide +kernel
  obtain ⟨s, hs, hn⟩ := Option.any_eq_true _ _ |>.mp h
  exact ⟨s, of_decide_eq_true hn, totalFetched_le (runs_of_acts hs)⟩

theorem Step.fetcher_advance (h : s.Accurate t) (hs : Step s s') (i : Nat) :
    (s.clients.fetchers i).Advance (s'.clients.fetchers i) := by
  cases hs
  case fetcher ho hf   =>
    exact (Clients.advance_setFetcher (Fetcher.good_of_step ho (h.fetchers _) hf).advance).fetchers i
  case replyFetcher hf =>
    exact (Clients.advance_setFetcher (Fetcher.good_of_receive (h.fetchers _) hf).advance).fetchers i
  all_goals exact ⟨rfl, fun _ => id, fun _ => rfl, List.prefix_refl _⟩

-- Fetching can be started again, but a node keeps the target pages it has got first.
theorem Accurate.targets_runs (h : s.Accurate t) (hr : Runs s s') {i : Nat}
    (hi : (s.clients.fetchers i).targetPageIds ≠ []) :
    (s'.clients.fetchers i).targetPageIds = (s.clients.fetchers i).targetPageIds := by
  induction hr
  case refl            => rfl
  case tail hr hs hrest =>
    exact ((hs.fetcher_advance (h.runs hr) i).targets (hrest.symm ▸ hi)).trans hrest

-- A node which has been created for the client.
def Owns (s : Simulation) (client : Client) (node : Nat) : Prop :=
  ∃ e ∈ s.handlers, e.client = client ∧ e.body = .response (.id node)

structure Distinct (s : Simulation) : Prop where
  known     : ∀ client node, s.Owns client node → node < s.db.experiment.nodes.length
  unique    : ∀ client client' node, s.Owns client node → s.Owns client' node → client = client'
  responses : ∀ e ∈ s.responses, ∀ node, e.body = .id node → s.Owns e.client node
  fetchers  : ∀ i node, (s.clients.fetchers i).nodeId = some node → s.Owns (.fetcher i) node

omit [Collection] [Carbon] in
theorem length_modifyNode (db : Database) (node : Nat) (f : ExperimentNode → ExperimentNode) :
    (db.modifyNode node f).experiment.nodes.length = db.experiment.nodes.length :=
  List.length_modify ..

omit [Collection] [Carbon] in
theorem bind_ne (db : Database) (request : Request) (node : Nat) :
    db.bind request ≠ .response (.id node) := by
  cases request <;> rw [Database.bind] <;> repeat' split
  all_goals nofun

omit [Carbon] in
theorem handle_cases {db db' : Database} {env : HandlerEnv} {handler body : Handler}
    (h : db.handle env handler = (db', body)) :
    (db'.experiment.nodes.length = db.experiment.nodes.length ∧
      ∀ node, body = .response (.id node) → handler = body) ∨
    db'.experiment.nodes.length = db.experiment.nodes.length + 1 ∧
      body = .response (.id db.experiment.nodes.length) := by
  cases handler
  case storeNode => cases h; exact .inr ⟨List.length_append, rfl⟩
  case startFetching _ left =>
    cases left <;> cases h
    case nil  => exact .inl ⟨rfl, nofun⟩
    case cons => exact .inl ⟨length_modifyNode .., nofun⟩
  case setTargetPages => cases h; exact .inl ⟨length_modifyNode .., nofun⟩
  case response       => cases h; exact .inl ⟨rfl, fun _ _ => rfl⟩
  all_goals cases h; exact .inl ⟨rfl, nofun⟩

-- The handlers have got a new one.
omit [Collection] [Carbon] in
theorem owns_append {client : Client} {node : Nat} {e : Sent Handler} :
    { s with handlers := s.handlers ++ [e] }.Owns client node ↔
      s.Owns client node ∨ e.client = client ∧ e.body = .response (.id node) := by
  simp only [Owns, List.mem_append, List.mem_singleton, or_and_right, exists_or, exists_eq_left]

omit [Collection] [Carbon] in
-- What a handler answers with the id of a node belongs to its client, or to nobody yet.
theorem Distinct.append (h : s.Distinct) {db : Database} {e : Sent Handler}
    (hl : s.db.experiment.nodes.length ≤ db.experiment.nodes.length)
    (he : ∀ node, e.body = .response (.id node) → s.Owns e.client node ∨
      node = s.db.experiment.nodes.length ∧ node < db.experiment.nodes.length) :
    { s with db, handlers := s.handlers ++ [e] }.Distinct where
  known client node ho := by
    obtain ho | ⟨rfl, hb⟩ := owns_append.mp ho
    · exact (h.known client node ho).trans_le hl
    · obtain ho | ⟨_, hn⟩ := he node hb
      · exact (h.known _ node ho).trans_le hl
      · exact hn
  unique client client' node ho ho' := by
    obtain ho | ⟨rfl, hb⟩ := owns_append.mp ho <;> obtain ho' | ⟨rfl, hb'⟩ := owns_append.mp ho'
    · exact h.unique client client' node ho ho'
    · obtain hn | ⟨rfl, _⟩ := he node hb'
      · exact h.unique _ _ node ho hn
      · exact absurd (h.known client _ ho) (lt_irrefl _)
    · obtain hn | ⟨rfl, _⟩ := he node hb
      · exact h.unique _ _ node hn ho'
      · exact absurd (h.known client' _ ho') (lt_irrefl _)
    · rfl
  responses r hr node hb := owns_append.mpr <| .inl <| h.responses r hr node hb
  fetchers i node hn     := owns_append.mpr <| .inl <| h.fetchers i node hn

theorem Distinct.step (h : s.Distinct) (hs : Step s s') : s'.Distinct := by
  cases hs
  case creator      => exact ⟨h.known, h.unique, h.responses, h.fetchers⟩
  case replyCreator => exact ⟨h.known, h.unique, h.responses, h.fetchers⟩
  case fetcher i _ f _ ho hf =>
    refine ⟨h.known, h.unique, h.responses, fun j node hn => h.fetchers j node ?_⟩
    by_cases hj : j = i
    case pos =>
      cases hj
      rw [Clients.setFetcher_self] at hn
      exact (Fetcher.ids_of_step hf).1 ▸ hn
    case neg => rwa [Clients.setFetcher_of_ne hj] at hn
  case replyFetcher i f _ hm hf =>
    refine ⟨h.known, h.unique, h.responses, fun j node hn => ?_⟩
    by_cases hj : j = i
    case neg => exact h.fetchers j node <| by rwa [Clients.setFetcher_of_ne hj] at hn
    case pos =>
      cases hj
      rw [Clients.setFetcher_self] at hn
      obtain ⟨_, rfl, _⟩ | ⟨new, rfl, _, rfl⟩ | ⟨ids, _, _, _, rfl⟩ := Fetcher.receive_cases hf
      · exact h.fetchers i node hn
      · cases hn
        exact h.responses _ (hm _ rfl) _ rfl
      · exact h.fetchers i node hn
  case bind request _ => exact h.append le_rfl fun node hb => absurd hb <| bind_ne _ _ node
  case handle handler db body hp hm hs =>
    obtain ⟨hl, hb⟩ | ⟨hl, rfl⟩ := handle_cases hs
    · exact h.append hl.ge fun node hn => .inl ⟨handler, hm, rfl, (hb node hn).trans hn⟩
    · refine h.append (by omega) fun node hn => .inr ?_
      cases hn
      exact ⟨rfl, by omega⟩
  case respond hm =>
    refine ⟨h.known, h.unique, fun r hr node hb => ?_, h.fetchers⟩
    obtain hr | hr := List.mem_append.mp hr
    · exact h.responses r hr node hb
    · cases List.mem_singleton.mp hr
      cases hb
      exact ⟨_, hm, rfl, rfl⟩
  case read => exact ⟨h.known, h.unique, h.responses, h.fetchers⟩
  case process =>
    refine ⟨fun client node ho => ?_, h.unique, h.responses, h.fetchers⟩
    exact (h.known client node ho).trans_eq (length_modifyNode ..).symm

omit [Collection] [Carbon] in
theorem distinct_start : (start targetAmount t nodes fetchers).Distinct where
  known _ _ h      := by obtain ⟨_, h, _⟩ := h; cases h
  unique _ _ _ h _ := by obtain ⟨_, h, _⟩ := h; cases h
  responses _ h    := absurd h List.not_mem_nil
  fetchers _ _ h   := by cases h

theorem Distinct.runs (h : s.Distinct) (hr : Runs s s') : s'.Distinct := by
  induction hr
  case refl            => exact h
  case tail _ hs hrest => exact hrest.step hs

-- The database does not say more of a node than what its fetcher has done.
theorem database_accurate (h : Runs (start targetAmount t nodes fetchers) s) {node i : Nat}
    {row : ExperimentNode} (hr : s.db.experiment.nodes[node]? = some row)
    (hi : (s.clients.fetchers i).nodeId = some node) :
    (row.status = "success" → (s.clients.fetchers i).Successful) ∧
    (row.evilNoforward = true → (s.clients.fetchers i).evilNoforward = true) ∧
    TimelessDataPoint.total targetsFetched row.timelessDataPoints ≤
      (s.clients.fetchers i).fetchedPageIds.length := by
  have hd := distinct_start.runs h
  have hj : ∀ j, (s.clients.fetchers j).nodeId = some node → j = i := fun j hj => by
    cases hd.unique _ _ node (hd.fetchers j node hj) (hd.fetchers i node hi)
    rfl
  have ha := (accurate_start.runs h).rows node row hr |>.1
  refine ⟨fun hs => ?_, fun he => ?_, TimelessDataPoint.total_le ha.single fun r hm hn => ?_⟩
  case refine_1 => obtain ⟨j, hn, hs⟩ := ha.status hs; exact hj j hn ▸ hs
  case refine_2 => obtain ⟨j, hn, he⟩ := ha.evil he; exact hj j hn ▸ he
  case refine_3 => obtain ⟨j, hn, hl⟩ := ha.total r hm hn; exact hj j hn ▸ hl

omit [Collection] [Carbon] in
attribute [local instance] Carbon.cutting in
theorem database_accurate_oneNode : ∃ (s : Simulation) (row : ExperimentNode),
    s.db.experiment.nodes[0]? = some row ∧ row.status = "success" ∧ row.evilNoforward = true ∧
    TimelessDataPoint.total targetsFetched row.timelessDataPoints = 1 ∧
    (s.clients.fetchers 0).Successful := by
  have h : ((OneNode.begin true).acts OneNode.untilFetched).any (fun s =>
      (s.clients.fetchers 0).nodeId = some 0 ∧ s.db.experiment.nodes[0]?.any (fun row =>
        row.status = "success" ∧ row.evilNoforward = true ∧
        TimelessDataPoint.total targetsFetched row.timelessDataPoints = 1)) = true := by
    decide +kernel
  obtain ⟨s, hs, hn⟩ := Option.any_eq_true _ _ |>.mp h
  obtain ⟨hi, hr⟩ := of_decide_eq_true hn
  obtain ⟨row, hr, hv⟩ := Option.any_eq_true _ _ |>.mp hr
  obtain ⟨hst, he, ht⟩ := of_decide_eq_true hv
  exact ⟨s, row, hr, hst, he, ht, (database_accurate (runs_of_acts hs) hr hi).1 hst⟩

end Simulation

end Hermes
