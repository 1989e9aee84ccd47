import Mathlib.Algebra.Order.Ring.Nat
import Mathlib.Data.List.Dedup
import Fledger.Hermes.NodeUpdateJob

namespace Hermes

-- `Collection::unique`, which also leaves out strings that are equal as numbers.
class Collection where
  unique        : List String → List String
  unique_subset : ∀ l, unique l ⊆ l

-- The database has texts for the lists. If there is none, it is read as an empty collection.
structure ExperimentNode extends Node where
  targetPages   : List Page
  storedTargets : List String

-- The id of a node is its place.
structure Experiment where
  targetPages    : List Page
  targetsPerNode : Nat
  nodes          : List ExperimentNode

def targetsFetched : String :=
  "target_successfully_fetched_total"

namespace TimelessDataPoint

-- The number of a decimal text.
def number (row : TimelessDataPoint) : Nat :=
  Nat.ofDigitChars 10 row.value.toList 0

def total (name : String) (rows : List TimelessDataPoint) : Nat :=
  ((rows.filter (·.name = name)).map number).sum

end TimelessDataPoint

namespace ExperimentNode

-- What the database has for the columns of a new node.
def create : ExperimentNode where
  pagesStored         := none
  status              := "active"
  evilNoforward       := false
  lastUpdateTimestamp := none
  dataPoints          := []
  timelessDataPoints  := []
  targetPages         := []
  storedTargets       := []

end ExperimentNode

namespace Experiment

def benevolent (e : Experiment) : List ExperimentNode :=
  e.nodes.filter (!·.evilNoforward)

-- The parts of `fetchSuccessRate`.
def totalExpected (e : Experiment) : Nat :=
  e.benevolent.length * e.targetsPerNode

def totalFetched (e : Experiment) : Nat :=
  (e.benevolent.map fun node => TimelessDataPoint.total targetsFetched node.timelessDataPoints).sum

variable [Collection]

def storedTargetPages (e : Experiment) : List String :=
  Collection.unique <| e.benevolent.flatMap ExperimentNode.storedTargets

-- The target pages have been read with the experiment, its nodes are read now.
def lostTargetPages (e : Experiment) (targetPages : List Page) : List String :=
  (targetPages.map Page.id).filter (· ∉ e.storedTargetPages)

end Experiment

inductive Request
  | storeNode (name : String)
  | storeTargetPages (targetPages : List Page)
  | lostTargetPages
  | startFetching
  | update (node : Nat) (data : SimulationSnapshotData)
  | setTargetPages (node : Nat) (storedTargets : List String)

-- What can be read from the body of a response. All errors have a body, too.
inductive Response
  | id (node : Nat)
  | targetPages (ids : List String)
  | lostTargetPages (ids : List String)
  | targetPageIds (ids : List String)
  | success
  | error

-- How far a request is handled. What its route names has been read.
inductive Handler
  | storeNode
  | storeTargetPages (targetPages : List Page)
  | lostTargetPages (targetPages : List Page)
  | startFetching (targetPages : List Page) (left : List Nat)
  | update (node : Nat) (targetPages : List Page) (data : SimulationSnapshotData)
  | setTargetPages (node : Nat) (read : ExperimentNode) (storedTargets : List String)
  | response (response : Response)

-- `required|string|max:255`.
def validString (s : String) : Bool :=
  0 < s.length && s.length ≤ 255

def Page.valid (page : Page) : Bool :=
  validString page.id && validString page.name

def validPages (pages : List Page) : Bool :=
  1 ≤ pages.length && pages.length ≤ 1024 && pages.all Page.valid

namespace SimulationSnapshotData

def valid (data : SimulationSnapshotData) : Bool :=
  data.nodeStatus.all validString &&
  data.pagesStored.all (fun pages => pages.length ≤ 4096 && pages.all Page.valid) &&
  data.timedMetrics.length ≤ 4096 && data.timedMetrics.all (validString ·.1) &&
  data.timelessMetrics.length ≤ 4096 && data.timelessMetrics.all (validString ·.1)

end SimulationSnapshotData

-- The rows of the experiment, and the queue with the jobs of its nodes.
structure Database where
  experiment : Experiment
  jobs       : List (Nat × NodeUpdateJob)

-- The random order of a list, and the time in microseconds.
structure HandlerEnv where
  shuffle : List Page → List Page
  now     : Nat

namespace Database

def modifyNode (db : Database) (node : Nat) (f : ExperimentNode → ExperimentNode) : Database :=
  { db with experiment := { db.experiment with nodes := db.experiment.nodes.modify node f } }

-- A request which is not valid, and one for an unknown node, are refused.
def bind (db : Database) : Request → Handler
  | .storeNode name                    =>
    if validString name then .storeNode else .response .error
  | .storeTargetPages targetPages      =>
    if validPages targetPages then .storeTargetPages targetPages else .response .error
  | .lostTargetPages                   => .lostTargetPages db.experiment.targetPages
  | .startFetching                     =>
    .startFetching db.experiment.targetPages (List.range db.experiment.nodes.length)
  | .update node data                  =>
    match db.experiment.nodes[node]? with
    | some read => if data.valid then .update node read.targetPages data else .response .error
    | none      => .response .error
  | .setTargetPages node storedTargets =>
    match db.experiment.nodes[node]? with
    | some read =>
      if storedTargets.length ≤ 1024 ∧ storedTargets.all validString
      then .setTargetPages node read storedTargets
      else .response .error
    | none      => .response .error

variable [Collection] [Carbon]

-- `storeNode`, `storeTargetPages`, `lostTargetPages`, `startFetching`, `update`, `setTargetPages`.
-- The target pages of the nodes are saved one after the other.
def handle (db : Database) (env : HandlerEnv) : Handler → Database × Handler
  | .storeNode                              =>
    ({ db with experiment :=
        { db.experiment with nodes := db.experiment.nodes ++ [ExperimentNode.create] } },
      .response (.id db.experiment.nodes.length))
  | .storeTargetPages targetPages           =>
    ({ db with experiment := { db.experiment with targetPages } },
      .response (.targetPages (targetPages.map Page.id)))
  | .lostTargetPages targetPages            =>
    (db, .response (.lostTargetPages (db.experiment.lostTargetPages targetPages)))
  | .startFetching _ []                     => (db, .response .success)
  | .startFetching targetPages (node :: left) =>
    (db.modifyNode node ({ · with
        targetPages := (env.shuffle targetPages).take db.experiment.targetsPerNode }),
      .startFetching targetPages left)
  | .update node targetPages data           =>
    ({ db with jobs := db.jobs ++ [(node, { data, dispatchedAt := env.now })] },
      .response (.targetPageIds (targetPages.map Page.id)))
  | .setTargetPages node read storedTargets =>
    (db.modifyNode node fun row => { row with
        storedTargets := Node.save read.storedTargets storedTargets row.storedTargets },
      .response (.targetPageIds (read.targetPages.map Page.id)))
  | .response response                      => (db, .response response)

-- A worker, which has read the node before, runs a job of it.
def processUpdate (db : Database) (node : Nat) (job : NodeUpdateJob) (read : Node) : Database :=
  db.modifyNode node fun row => { row with toNode := job.processUpdate read row.toNode }

end Database

end Hermes
