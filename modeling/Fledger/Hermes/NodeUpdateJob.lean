import Mathlib.Data.Nat.Basic
import Fledger.Hermes.Snapshot
import Fledger.Lib.Register

namespace Hermes

structure DataPoint where
  name  : String
  value : String
  time  : Nat
deriving DecidableEq

structure TimelessDataPoint where
  name  : String
  value : String
deriving DecidableEq

namespace TimelessDataPoint

-- `where('name', $name)->first()`.
def first (name : String) (rows : List TimelessDataPoint) : Option TimelessDataPoint :=
  rows.find? (·.name = name)

def set (name value : String) : List TimelessDataPoint → List TimelessDataPoint
  | []          => []
  | row :: rows =>
    if row.name = name then { row with value } :: rows else row :: set name value rows

-- A metric is saved to the first row of its name among those which have been read, unless this row
-- has its value already, or to a new row.
def save (read stored : List TimelessDataPoint) (metric : String × String) :
    List TimelessDataPoint :=
  match first metric.1 read with
  | some row => if metric.2 = row.value then stored else set metric.1 metric.2 stored
  | none     => stored ++ [{ name := metric.1, value := metric.2 }]

def saveMany (rows : List TimelessDataPoint) (metrics : List (String × String)) :
    List TimelessDataPoint :=
  metrics.foldl (save rows) rows

def valueOf (name : String) (rows : List TimelessDataPoint) : Option String :=
  (first name rows).map TimelessDataPoint.value

end TimelessDataPoint

-- What the database has of a node. Timestamps are kept in seconds.
structure Node where
  pagesStored         : Option (List Page)
  status              : String
  evilNoforward       : Bool
  lastUpdateTimestamp : Option Nat
  dataPoints          : List DataPoint
  timelessDataPoints  : List TimelessDataPoint

namespace Node

-- Attributes are only written if they differ from what has been read.
def save {A : Type*} [DecidableEq A] (read new stored : A) : A :=
  if new = read then stored else new

def timeless (name : String) (n : Node) : Option String :=
  TimelessDataPoint.valueOf name n.timelessDataPoints

end Node

-- `Carbon::floorSeconds`, for times in microseconds.
class Carbon where
  floorSeconds : Nat → Nat → Nat

-- The time is in microseconds.
structure NodeUpdateJob where
  data         : SimulationSnapshotData
  dispatchedAt : Nat
deriving DecidableEq

namespace NodeUpdateJob

variable [Carbon]

-- `floorSeconds` changes the date itself. It is called for each timed metric.
def time (j : NodeUpdateJob) : Nat :=
  if j.data.timedMetrics = [] then j.dispatchedAt else Carbon.floorSeconds 10 j.dispatchedAt

def seconds (j : NodeUpdateJob) : Nat :=
  j.time / 1000000

def isAfter (j : NodeUpdateJob) (last : Option Nat) : Bool :=
  last.all (· * 1000000 < j.time)

def timedDataPoints (j : NodeUpdateJob) : List DataPoint :=
  j.data.timedMetrics.map fun m =>
    { name := m.1, value := m.2, time := Carbon.floorSeconds 10 j.dispatchedAt / 1000000 }

-- The node has been read when the job was taken from the queue, the rows are read and written in
-- the database.
def processUpdate (j : NodeUpdateJob) (node db : Node) : Node where
  pagesStored         :=
    Node.save node.pagesStored (j.data.pagesStored.or node.pagesStored) db.pagesStored
  status              := Node.save node.status (j.data.nodeStatus.getD node.status) db.status
  evilNoforward       :=
    Node.save node.evilNoforward (j.data.evilNoForward.getD node.evilNoforward) db.evilNoforward
  dataPoints          := db.dataPoints ++ j.timedDataPoints
  timelessDataPoints  :=
    if j.isAfter node.lastUpdateTimestamp
    then TimelessDataPoint.saveMany db.timelessDataPoints j.data.timelessMetrics
    else db.timelessDataPoints
  lastUpdateTimestamp :=
    Node.save node.lastUpdateTimestamp (some j.seconds) db.lastUpdateTimestamp

-- The job is the only one which runs.
def execute (n : Node) (j : NodeUpdateJob) : Node :=
  j.processUpdate n n

def run (n : Node) (jobs : List NodeUpdateJob) : Node :=
  jobs.foldl execute n

-- Each value is the one of the last dispatched job which has one.
structure UpToDate (jobs : List NodeUpdateJob) (n : Node) : Prop where
  timeless      : ∀ name value,
    Register.Latest dispatchedAt (·.data.timeless name) jobs value → n.timeless name = some value
  pagesStored   : ∀ pages,
    Register.Latest dispatchedAt (·.data.pagesStored) jobs pages → n.pagesStored = some pages
  status        : ∀ status,
    Register.Latest dispatchedAt (·.data.nodeStatus) jobs status → n.status = status
  evilNoforward : ∀ evil,
    Register.Latest dispatchedAt (·.data.evilNoForward) jobs evil → n.evilNoforward = evil

-- The jobs whose time is after the one that has been executed before them.
def applied : Option Nat → List NodeUpdateJob → List NodeUpdateJob
  | _, []         => []
  | last, j :: js =>
    if j.isAfter last then j :: applied (some j.seconds) js else applied (some j.seconds) js

-- The last executed job that has a value has the one of the last dispatched job. For the timeless
-- metrics only those count whose time is after the one before them.
structure LatestLast (n : Node) (jobs : List NodeUpdateJob) : Prop where
  timeless      : ∀ name value, Register.Latest dispatchedAt (·.data.timeless name) jobs value →
    (Register.last (·.data.timeless name) (applied n.lastUpdateTimestamp jobs)).or
      (n.timeless name) = some value
  pagesStored   : ∀ pages, Register.Latest dispatchedAt (·.data.pagesStored) jobs pages →
    Register.last (·.data.pagesStored) jobs = some pages
  status        : ∀ status, Register.Latest dispatchedAt (·.data.nodeStatus) jobs status →
    Register.last (·.data.nodeStatus) jobs = some status
  evilNoforward : ∀ evil, Register.Latest dispatchedAt (·.data.evilNoForward) jobs evil →
    Register.last (·.data.evilNoForward) jobs = some evil

end NodeUpdateJob

namespace TimelessDataPoint

variable {rows read stored : List TimelessDataPoint} {row : TimelessDataPoint}
  {name other v w : String} {metrics : List (String × String)}

theorem value_cons :
    valueOf name (row :: rows) = if row.name = name then some row.value else valueOf name rows := by
  rw [valueOf, first, List.find?_cons]
  by_cases h : row.name = name <;> simp [h, valueOf, first]

theorem value_concat : valueOf name (rows ++ [row]) =
    (valueOf name rows).or (if row.name = name then some row.value else none) := by
  induction rows
  case nil         => rw [List.nil_append, value_cons]; rfl
  case cons _ _ hi => rw [List.cons_append, value_cons, value_cons, hi]; split <;> rfl

theorem value_set : valueOf name (set other v rows) =
    if other = name then (valueOf name rows).map fun _ => v else valueOf name rows := by
  induction rows
  case nil              => simp [set, valueOf, first]
  case cons row rows hi =>
    rw [set]
    by_cases ho : row.name = other
    case pos =>
      simp only [ho, if_true, value_cons]
      split <;> rfl
    case neg =>
      simp only [ho, if_false, value_cons, hi]
      by_cases hn : row.name = name
      case pos => simp [hn, Ne.symm (hn ▸ ho : name ≠ other)]
      case neg => simp [hn]

theorem value_save_of_ne (h : other ≠ name) : valueOf name (save read stored (other, v)) =
    valueOf name stored := by
  rw [save]
  split
  case h_1 =>
    split
    case isTrue  => rfl
    case isFalse => rw [value_set, if_neg h]
  case h_2 => simp [value_concat, h]

-- What is stored is the value which has been read, or already the new one.
theorem value_save (h : valueOf name stored = some v ∨ valueOf name stored = valueOf name read) :
    valueOf name (save read stored (name, v)) = some v := by
  rw [save]
  split
  case h_1 row hr =>
    have hv : valueOf name read = some row.value := by rw [valueOf, hr, Option.map_some]
    split
    case isTrue he  => exact h.elim id fun h => h.trans <| hv.trans <| congrArg some he.symm
    case isFalse he =>
      rw [value_set, if_pos rfl]
      obtain h | h := h <;> simp [h, hv]
  case h_2 hr =>
    have hv : valueOf name read = none := by rw [valueOf, hr, Option.map_none]
    rw [value_concat, if_pos rfl]
    obtain h | h := h <;> simp [h, hv]

theorem value_saveMany (hv : ∀ m ∈ metrics, m.1 = name → m.2 = v)
    (h : valueOf name stored = some v ∨ valueOf name stored = valueOf name read) :
    valueOf name (metrics.foldl (save read) stored) =
      if name ∈ metrics.map Prod.fst then some v else valueOf name stored := by
  induction metrics generalizing stored
  case nil               => rfl
  case cons m metrics hi =>
    obtain ⟨other, w⟩ := m
    obtain ⟨hm, hv⟩ := List.forall_mem_cons.mp hv
    rw [List.foldl_cons]
    by_cases hn : other = name
    case pos =>
      cases hm hn
      cases hn
      have hs := value_save h
      rw [hi hv (.inl hs), hs]
      simp
    case neg =>
      have hs : valueOf name (save read stored (other, w)) = valueOf name stored :=
        value_save_of_ne hn
      rw [hi hv (hs.symm ▸ h), hs]
      refine if_congr ?_ rfl rfl
      rw [List.map_cons, List.mem_cons, or_iff_right (Ne.symm hn)]

end TimelessDataPoint

namespace NodeUpdateJob

variable [Carbon] {n : Node} {j : NodeUpdateJob} {jobs : List NodeUpdateJob} {name value : String}
  {last : Option Nat}

omit [Carbon] in
theorem save_self {A : Type*} [DecidableEq A] (a b : A) : Node.save a b a = b := by
  rw [Node.save]
  split
  case isTrue h  => exact h.symm
  case isFalse _ => rfl

theorem lastUpdateTimestamp_execute : (execute n j).lastUpdateTimestamp = some j.seconds :=
  save_self _ _

theorem pagesStored_execute :
    (execute n j).pagesStored = j.data.pagesStored.or n.pagesStored :=
  save_self _ _

theorem status_execute : some (execute n j).status = j.data.nodeStatus.or (some n.status) := by
  rw [Option.or_some]
  exact congrArg some <| save_self _ _

theorem evilNoforward_execute :
    some (execute n j).evilNoforward = j.data.evilNoForward.or (some n.evilNoforward) := by
  rw [Option.or_some]
  exact congrArg some <| save_self _ _

theorem timeless_execute (hc : j.data.Consistent) :
    (execute n j).timeless name =
      if j.isAfter n.lastUpdateTimestamp then (j.data.timeless name).or (n.timeless name)
      else n.timeless name := by
  rw [Node.timeless, execute, processUpdate]
  split
  case isFalse => rfl
  case isTrue  =>
    cases ht : j.data.timeless name
    case none   =>
      have hn := SimulationSnapshotData.timeless_eq_none.mp ht
      have hv : ∀ m ∈ j.data.timelessMetrics, m.1 = name → m.2 = "" :=
        fun m hm he => absurd (List.mem_map.mpr ⟨m, hm, he⟩) hn
      rw [TimelessDataPoint.saveMany, TimelessDataPoint.value_saveMany hv (.inr rfl), if_neg hn]
      rfl
    case some v =>
      have hm := hc.timeless_eq_some.mp ht
      have hv : ∀ m ∈ j.data.timelessMetrics, m.1 = name → m.2 = v :=
        fun m h he => hc m h _ hm he
      rw [TimelessDataPoint.saveMany, TimelessDataPoint.value_saveMany hv (.inr rfl),
        if_pos (List.mem_map_of_mem hm)]
      rfl

theorem pagesStored_run (n : Node) (jobs : List NodeUpdateJob) : (run n jobs).pagesStored =
    (Register.last (·.data.pagesStored) jobs).or n.pagesStored :=
  Register.foldl_eq Node.pagesStored (fun n j => pagesStored_execute (n := n) (j := j)) n

theorem status_run (n : Node) (jobs : List NodeUpdateJob) : some (run n jobs).status =
    (Register.last (·.data.nodeStatus) jobs).or n.status :=
  Register.foldl_eq (fun n => some n.status) (fun n j => status_execute (n := n) (j := j)) n

theorem evilNoforward_run (n : Node) (jobs : List NodeUpdateJob) : some (run n jobs).evilNoforward =
    (Register.last (·.data.evilNoForward) jobs).or n.evilNoforward :=
  Register.foldl_eq (fun n => some n.evilNoforward)
    (fun n j => evilNoforward_execute (n := n) (j := j)) n

theorem timeless_run (hc : ∀ j ∈ jobs, j.data.Consistent) :
    (run n jobs).timeless name =
      (Register.last (·.data.timeless name) (applied n.lastUpdateTimestamp jobs)).or
        (n.timeless name) := by
  induction jobs generalizing n
  case nil             => rfl
  case cons j jobs hi =>
    obtain ⟨hj, hc⟩ := List.forall_mem_cons.mp hc
    have h := hi (n := execute n j) hc
    rw [lastUpdateTimestamp_execute, timeless_execute hj] at h
    rw [applied]
    split
    case isTrue ha  =>
      rw [if_pos ha] at h
      rw [Register.last_cons, Option.or_assoc]
      exact h
    case isFalse ha =>
      rw [if_neg ha] at h
      exact h

-- The values are up to date, if and only if the last ones have been executed last.
theorem upToDate_iff (n : Node) (jobs : List NodeUpdateJob) (hc : ∀ j ∈ jobs, j.data.Consistent) :
    UpToDate jobs (run n jobs) ↔ LatestLast n jobs := by
  have hp := pagesStored_run n jobs
  have hs := status_run n jobs
  have he := evilNoforward_run n jobs
  constructor
  case mp  =>
    intro h
    refine ⟨fun name v hl => ?_, fun v hl => ?_, fun v hl => ?_, fun v hl => ?_⟩
    case refine_1 => exact timeless_run hc ▸ h.timeless name v hl
    case refine_2 => exact hl.or_eq_some_iff.mp <| hp ▸ h.pagesStored v hl
    case refine_3 => exact hl.or_eq_some_iff.mp <| hs ▸ congrArg some (h.status v hl)
    case refine_4 => exact hl.or_eq_some_iff.mp <| he ▸ congrArg some (h.evilNoforward v hl)
  case mpr =>
    intro h
    refine ⟨fun name v hl => ?_, fun v hl => ?_, fun v hl => ?_, fun v hl => ?_⟩
    case refine_1 => exact (timeless_run hc).trans <| h.timeless name v hl
    case refine_2 => exact hp.trans <| hl.or_eq_some_iff.mpr <| h.pagesStored v hl
    case refine_3 => exact Option.some.inj <| hs.trans <| hl.or_eq_some_iff.mpr <| h.status v hl
    case refine_4 =>
      exact Option.some.inj <| he.trans <| hl.or_eq_some_iff.mpr <| h.evilNoforward v hl

theorem isAfter_some {second : Nat} :
    j.isAfter (some second) = true ↔ second * 1000000 < j.time := by
  rw [isAfter, Option.all_some, decide_eq_true_eq]

-- Where `floorSeconds` adds no time.
section Sorted

variable (hf : ∀ k t, Carbon.floorSeconds k t ≤ t)
include hf

theorem floorSeconds_le_time : Carbon.floorSeconds 10 j.dispatchedAt ≤ j.time := by
  rw [time]
  split
  case isTrue  => exact hf 10 j.dispatchedAt
  case isFalse => exact le_rfl

theorem time_le_dispatchedAt : j.time ≤ j.dispatchedAt := by
  rw [time]
  split
  case isTrue  => exact le_rfl
  case isFalse => exact hf 10 j.dispatchedAt

-- The dates of the two jobs differ by more than what `floorSeconds` takes off.
theorem isAfter_of_floorSeconds_lt {k : NodeUpdateJob}
    (h : j.dispatchedAt < Carbon.floorSeconds 10 k.dispatchedAt) :
    k.isAfter (some j.seconds) := by
  rw [isAfter_some, seconds]
  calc j.time / 1000000 * 1000000
    _ ≤ j.time                                := Nat.div_mul_le_self j.time 1000000
    _ ≤ j.dispatchedAt                        := time_le_dispatchedAt hf
    _ < Carbon.floorSeconds 10 k.dispatchedAt := h
    _ ≤ k.time                                := floorSeconds_le_time hf

theorem applied_of_sorted
    (hs : jobs.Pairwise fun i j => i.dispatchedAt < Carbon.floorSeconds 10 j.dispatchedAt)
    (ha : ∀ j ∈ jobs, j.isAfter last) : applied last jobs = jobs := by
  induction jobs generalizing last
  case nil             => rfl
  case cons j jobs hi =>
    obtain ⟨hj, hs⟩ := List.pairwise_cons.mp hs
    rw [applied, if_pos (ha j List.mem_cons_self), hi hs]
    exact fun k hk => isAfter_of_floorSeconds_lt hf (hj k hk)

-- Nothing goes wrong in the order in which the jobs have been dispatched, if no two of them are of
-- the same ten seconds.
theorem upToDate_of_sorted (hc : ∀ j ∈ jobs, j.data.Consistent)
    (hs : jobs.Pairwise fun i j => i.dispatchedAt < Carbon.floorSeconds 10 j.dispatchedAt)
    (ha : ∀ j ∈ jobs, j.isAfter n.lastUpdateTimestamp) : UpToDate jobs (run n jobs) := by
  have hd : jobs.Pairwise fun i j => i.dispatchedAt < j.dispatchedAt :=
    hs.imp fun h => h.trans_le <| hf 10 _
  refine upToDate_iff n jobs hc |>.mpr
    ⟨fun name v hl => ?_, fun v hl => ?_, fun v hl => ?_, fun v hl => ?_⟩
  case refine_1 =>
    rw [applied_of_sorted hf hs ha, Register.last_of_sorted hd hl, Option.some_or]
  all_goals exact Register.last_of_sorted hd hl

end Sorted

end NodeUpdateJob

-- The time is cut to a multiple of so many seconds.
abbrev Carbon.cutting : Carbon where
  floorSeconds n time := time / (n * 1000000) * (n * 1000000)

namespace NodeUpdateJob

attribute [local instance] Carbon.cutting

def newNode : Node where
  pagesStored         := none
  status              := "active"
  evilNoforward       := false
  lastUpdateTimestamp := none
  dataPoints          := []
  timelessDataPoints  := []

def fetchesJob (second : Nat) (status : Option String) (metrics : List (String × String)) :
    NodeUpdateJob where
  data         := ⟨status, none, none, [("pages_stored", "0")], metrics⟩
  dispatchedAt := second * 1000000

-- The last one of three jobs is executed first.
def thirdFirst : List NodeUpdateJob := [
  fetchesJob 30 (some "success") [("fetch_requests_total", "3")],
  fetchesJob 10 none [],
  fetchesJob 20 (some "active") [("fetch_requests_total", "2")]]

-- A metric of the same ten seconds is left out.
example :
    (run newNode [
      fetchesJob 21 none [("fetch_requests_total", "2")],
      fetchesJob 29 none [("fetch_requests_total", "3")]]).timeless "fetch_requests_total" =
    some "2" := by
  decide +kernel

theorem not_upToDate :
    (run newNode thirdFirst).timeless "fetch_requests_total" = some "2" ∧
      (run newNode thirdFirst).status = "active" ∧
      ¬UpToDate thirdFirst (run newNode thirdFirst) := by
  refine ⟨by decide +kernel, by decide +kernel, fun h => ?_⟩
  have hl : Register.Latest dispatchedAt (·.data.nodeStatus) thirdFirst "success" :=
    ⟨_, List.mem_cons_self, rfl, by decide +kernel⟩
  have hs := h.status "success" hl
  revert hs
  decide +kernel

theorem upToDate_thirdFirst :
    UpToDate thirdFirst (run newNode thirdFirst) ↔ LatestLast newNode thirdFirst :=
  upToDate_iff newNode thirdFirst (by
    unfold SimulationSnapshotData.Consistent
    decide +kernel)

end NodeUpdateJob

end Hermes
