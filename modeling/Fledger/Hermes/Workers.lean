import Mathlib.Data.Multiset.Bind
import Mathlib.Tactic.Abel
import Fledger.Lib.Bag
import Fledger.Hermes.NodeUpdateJob

namespace Hermes

-- How far a worker is with a job: it has taken it from the queue, and has read the node, it has got
-- the lock, or it has run `processUpdate`.
inductive Activity
  | fetched (job : NodeUpdateJob) (node : Node)
  | locked (job : NodeUpdateJob) (node : Node)
  | processed

namespace Activity

-- The number of locks.
def holds : Activity → Nat
  | .fetched _ _ => 0
  | .locked _ _  => 1
  | .processed   => 1

variable [Carbon]

-- What is still to be stored.
def due : Activity → Multiset DataPoint
  | .fetched job _ => job.timedDataPoints
  | .locked job _  => job.timedDataPoints
  | .processed     => 0

end Activity

-- The jobs of one node, and the workers which are busy with some of them.
structure Workers where
  count  : Nat
  db     : Node
  queue  : List NodeUpdateJob
  active : List Activity
  lock   : Bool

inductive Act
  | fetch (k : Nat)
  | lock (i : Nat)
  | process (i : Nat)
  | release (i : Nat)

namespace Workers

variable [Carbon]

def start (count : Nat) (db : Node) (jobs : List NodeUpdateJob) : Workers where
  count  := count
  db     := db
  queue  := jobs
  active := []
  lock   := false

-- A job that does not get the lock is finished, as `get` does not wait.
def step (s : Workers) : Act → Option Workers
  | .fetch k   =>
    if s.active.length < s.count then
      s.queue[k]?.map fun job =>
        { s with queue := s.queue.eraseIdx k, active := s.active ++ [.fetched job s.db] }
    else none
  | .lock i    =>
    match s.active[i]? with
    | some (.fetched job node) =>
      if s.lock then some { s with active := s.active.eraseIdx i }
      else some { s with active := s.active.set i (.locked job node), lock := true }
    | _                        => none
  | .process i =>
    match s.active[i]? with
    | some (.locked job node) =>
      some { s with db := job.processUpdate node s.db, active := s.active.set i .processed }
    | _                       => none
  | .release i =>
    match s.active[i]? with
    | some .processed => some { s with active := s.active.eraseIdx i, lock := false }
    | _               => none

def Finished (s : Workers) : Prop :=
  s.queue = [] ∧ s.active = []

-- The data points of a job which does not get the lock.
def lost (s : Workers) : Act → List DataPoint
  | .lock i =>
    match s.active[i]? with
    | some (.fetched job _) => if s.lock then job.timedDataPoints else []
    | _                     => []
  | _       => []

-- No job with timed metrics asks for the lock while another one has it.
def Lossless (s : Workers) (a : Act) : Prop :=
  ∀ i job node, a = .lock i → s.active[i]? = some (.fetched job node) → s.lock = true →
    job.data.timedMetrics = []

-- The data points which are stored, or still to be stored.
def due (s : Workers) : Multiset DataPoint :=
  (s.db.dataPoints : Multiset DataPoint) +
    Multiset.bind (s.queue : Multiset NodeUpdateJob) (fun job => ↑job.timedDataPoints) +
    Multiset.bind (s.active : Multiset Activity) Activity.due

-- All runs, the states before the steps and the steps (the last one first).
inductive Runs (count : Nat) (db : Node) (jobs : List NodeUpdateJob) :
    List (Workers × Act) → Workers → Prop
  | start : Runs count db jobs [] (.start count db jobs)
  | step {history s a s'} :
    Runs count db jobs history s → s.step a = some s' → Runs count db jobs ((s, a) :: history) s'

-- What the steps do.
inductive Step (s : Workers) : Act → Workers → Prop
  | fetch {k job} : s.active.length < s.count → s.queue[k]? = some job →
    Step s (.fetch k)
      { s with queue := s.queue.eraseIdx k, active := s.active ++ [.fetched job s.db] }
  | refuse {i job node} : s.active[i]? = some (.fetched job node) → s.lock = true →
    Step s (.lock i) { s with active := s.active.eraseIdx i }
  | lock {i job node} : s.active[i]? = some (.fetched job node) → s.lock = false →
    Step s (.lock i) { s with active := s.active.set i (.locked job node), lock := true }
  | process {i job node} : s.active[i]? = some (.locked job node) →
    Step s (.process i)
      { s with db := job.processUpdate node s.db, active := s.active.set i .processed }
  | release {i} : s.active[i]? = some .processed →
    Step s (.release i) { s with active := s.active.eraseIdx i, lock := false }

variable {s s' : Workers} {a : Act} {count : Nat} {db : Node} {jobs : List NodeUpdateJob}
  {history : List (Workers × Act)}

theorem lost_eq_nil : s.lost a = [] ↔ s.Lossless a := by
  constructor
  case mp =>
    rintro hl i job node rfl ha hs
    rw [lost, ha, hs] at hl
    exact List.map_eq_nil_iff.mp hl
  case mpr =>
    intro hl
    cases a
    case lock i =>
      rw [lost]
      split
      case h_2             => rfl
      case h_1 job node ha =>
        split
        case isFalse   => rfl
        case isTrue hs => exact List.map_eq_nil_iff.mpr <| hl i job node rfl ha hs
    all_goals rfl

theorem step_of_eq (h : s.step a = some s') : s.Step a s' := by
  cases a
  case fetch k =>
    rw [step] at h
    split at h
    case isFalse   => cases h
    case isTrue hc =>
      obtain ⟨job, hk, rfl⟩ := Option.map_eq_some_iff.mp h
      exact .fetch hc hk
  case lock i =>
    rw [step] at h
    split at h
    case h_2             => cases h
    case h_1 job node hi =>
      split at h
      case isTrue hl =>
        cases h
        exact .refuse hi hl
      case isFalse hl =>
        cases h
        exact .lock hi (Bool.eq_false_of_not_eq_true hl)
  case process i =>
    rw [step] at h
    split at h
    case h_2             => cases h
    case h_1 job node hi =>
      cases h
      exact .process hi
  case release i =>
    rw [step] at h
    split at h
    case h_2    => cases h
    case h_1 hi =>
      cases h
      exact .release hi

-- Only the job that does not get the lock loses data points.
theorem due_step (h : s.step a = some s') : s'.due + s.lost a = s.due := by
  cases step_of_eq h
  case fetch job _ hk =>
    simp only [due, lost, Bag.coe_eraseIdx hk, Bag.coe_concat, Multiset.add_bind,
      Multiset.singleton_bind, Activity.due, Multiset.coe_nil]
    abel
  case refuse job node hi hl =>
    simp only [due, lost, hi, hl, Bag.coe_eraseIdx hi, Multiset.add_bind, Multiset.singleton_bind,
      Activity.due, if_true]
    abel
  case lock job node hi hl =>
    simp only [due, lost, hi, hl, Bag.coe_eraseIdx hi, Bag.coe_set hi, Multiset.add_bind,
      Multiset.singleton_bind, Activity.due, Bool.false_eq_true, if_false, Multiset.coe_nil,
      add_zero]
  case process job node hi =>
    simp only [due, lost, NodeUpdateJob.processUpdate, Bag.coe_eraseIdx hi, Bag.coe_set hi,
      Multiset.add_bind, Multiset.singleton_bind, Activity.due, Multiset.coe_nil,
      ← Multiset.coe_add]
    abel
  case release hi =>
    simp only [due, lost, Bag.coe_eraseIdx hi, Multiset.add_bind, Multiset.singleton_bind,
      Activity.due, Multiset.coe_nil, zero_add, add_zero]

theorem Runs.due (h : Runs count db jobs history s) :
    s.due + (history.flatMap fun r => r.1.lost r.2 : List DataPoint) =
      (Workers.start count db jobs).due := by
  induction h
  case start          => exact add_zero _
  case step hr hs hi =>
    rw [← hi, ← due_step hs, List.flatMap_cons, ← Multiset.coe_add]
    abel

-- When all jobs are finished, all data points have been stored, if and only if no job asked for the
-- lock in vain.
theorem Runs.stored_iff (h : Runs count db jobs history s) (hf : s.Finished) :
    s.db.dataPoints.Perm (db.dataPoints ++ jobs.flatMap NodeUpdateJob.timedDataPoints) ↔
      ∀ r ∈ history, r.1.Lossless r.2 := by
  have hd := h.due
  simp only [Workers.due, Workers.start, hf.left, hf.right, Multiset.coe_nil, Multiset.zero_bind,
    add_zero, Multiset.coe_bind, Multiset.coe_add] at hd
  have hd := Multiset.coe_eq_coe.mp hd
  constructor
  case mp =>
    intro hp r hr
    have hl := hd.trans hp.symm |>.length_eq
    rw [List.length_append, Nat.add_eq_left, List.length_eq_zero_iff, List.flatMap_eq_nil_iff] at hl
    exact lost_eq_nil.mp (hl r hr)
  case mpr =>
    intro hl
    have hn : (history.flatMap fun r => r.1.lost r.2) = [] :=
      List.flatMap_eq_nil_iff.mpr fun r hr => lost_eq_nil.mpr (hl r hr)
    rwa [hn, List.append_nil] at hd

def holders (s : Workers) : Nat :=
  (Multiset.map Activity.holds (s.active : Multiset Activity)).sum

theorem holders_step (h : s.step a = some s') (hs : s.holders = s.lock.toNat) :
    s'.holders = s'.lock.toNat := by
  rw [holders] at hs ⊢
  cases step_of_eq h
  case fetch =>
    rw [← hs, Bag.coe_concat, Multiset.map_add, Multiset.sum_add]
    rfl
  case refuse hi _ =>
    rw [Bag.sum_eraseIdx hi, Activity.holds, zero_add] at hs
    exact hs
  case lock hi hl =>
    rw [Bag.sum_eraseIdx hi, Activity.holds, zero_add] at hs
    rw [Bag.sum_set hi, hs, hl]
    rfl
  case process hi => rw [← hs, Bag.sum_set hi, Bag.sum_eraseIdx hi, Activity.holds, Activity.holds]
  case release hi =>
    have hl := s.lock.toNat_le
    rw [Bag.sum_eraseIdx hi, Activity.holds] at hs
    simp only [Bool.toNat_false]
    omega

-- No two jobs are processed at the same time.
theorem Runs.holders_le (h : Runs count db jobs history s) : s.holders ≤ 1 := by
  have hl : s.holders = s.lock.toNat := by
    induction h
    case start          => rfl
    case step _ hs hi => exact holders_step hs hi
  exact hl ▸ s.lock.toNat_le

-- A job which nobody disturbs is executed.
theorem run_alone {job : NodeUpdateJob} (ha : s.active = []) (hl : s.lock = false)
    (hc : 0 < s.count) (hq : s.queue = [job]) :
    ((s.step (.fetch 0)).bind fun s => (s.step (.lock 0)).bind fun s =>
      (s.step (.process 0)).bind fun s => s.step (.release 0)) =
    some { s with db := NodeUpdateJob.execute s.db job, queue := [] } := by
  cases s
  cases ha
  cases hl
  cases hq
  simp only at hc
  simp [step, hc, NodeUpdateJob.execute]

end Workers

namespace Workers

attribute [local instance] Carbon.cutting

def pagesJob (second : Nat) (pages : String) : NodeUpdateJob where
  data         := ⟨none, none, none, [("pages_stored", pages)], []⟩
  dispatchedAt := second * 1000000

def pagesJobs : List NodeUpdateJob :=
  [pagesJob 10 "1", pagesJob 20 "2"]

-- The second job asks for the lock while the first one has it.
theorem not_stored :
    ∃ history s, Runs 2 NodeUpdateJob.newNode pagesJobs history s ∧ s.Finished ∧
      ¬s.db.dataPoints.Perm
        (NodeUpdateJob.newNode.dataPoints ++ pagesJobs.flatMap NodeUpdateJob.timedDataPoints) := by
  have h : Runs 2 NodeUpdateJob.newNode pagesJobs [(_, .fetch 0)] _ := .step .start rfl
  have h : Runs 2 NodeUpdateJob.newNode pagesJobs ((_, .fetch 0) :: _) _ := .step h rfl
  have h : Runs 2 NodeUpdateJob.newNode pagesJobs ((_, .lock 0) :: _) _ := .step h rfl
  have h : Runs 2 NodeUpdateJob.newNode pagesJobs ((_, .lock 1) :: _) _ := .step h rfl
  have h : Runs 2 NodeUpdateJob.newNode pagesJobs ((_, .process 0) :: _) _ := .step h rfl
  have h : Runs 2 NodeUpdateJob.newNode pagesJobs ((_, .release 0) :: _) _ := .step h rfl
  exact ⟨_, _, h, ⟨rfl, rfl⟩, by decide +kernel⟩

theorem stored_pagesJob :
    ∃ history s, Runs 2 NodeUpdateJob.newNode [pagesJob 10 "1"] history s ∧ s.Finished ∧
      (s.db.dataPoints.Perm (NodeUpdateJob.newNode.dataPoints ++
          [pagesJob 10 "1"].flatMap NodeUpdateJob.timedDataPoints) ↔
        ∀ r ∈ history, r.1.Lossless r.2) := by
  have h : Runs 2 NodeUpdateJob.newNode [pagesJob 10 "1"] [(_, .fetch 0)] _ := .step .start rfl
  have h : Runs 2 NodeUpdateJob.newNode [pagesJob 10 "1"] ((_, .lock 0) :: _) _ := .step h rfl
  have h : Runs 2 NodeUpdateJob.newNode [pagesJob 10 "1"] ((_, .process 0) :: _) _ := .step h rfl
  have h : Runs 2 NodeUpdateJob.newNode [pagesJob 10 "1"] ((_, .release 0) :: _) _ := .step h rfl
  exact ⟨_, _, h, ⟨rfl, rfl⟩, h.stored_iff ⟨rfl, rfl⟩⟩

end Workers

end Hermes
