import Fledger.DhtRouter.Depth
import Fledger.Lib.Loop
import Mathlib.Data.List.Sort

structure Kademlia.Config where
  k            : Nat := 2
  pingInterval : UInt32 := 10
  pingTimeout  : UInt32 := 30

structure KNode where
  id          : NodeID
  depth       : Nat
  ticksActive : UInt32
  ticksLast   : UInt32

structure TickIDs where
  deleted : List NodeID := []
  ping    : List NodeID := []

def TickIDs.extend (ids other : TickIDs) : TickIDs where
  deleted := ids.deleted ++ other.deleted
  ping    := ids.ping ++ other.ping

namespace KNode

def new (root : NodeID) (id : NodeID) : KNode where
  id          := id
  depth       := getDepth root id
  ticksActive := 0
  ticksLast   := 0

def tick (node : KNode) : KNode :=
  { node with
    ticksActive := node.ticksActive + 1
    ticksLast   := node.ticksLast + 1
  }

def active (node : KNode) : KNode :=
  { node with ticksLast := 0 }

-- The remainder by zero panics.
def isDue (config : Kademlia.Config) (node : KNode) : Option Bool :=
  if config.pingInterval = 0 then none
  else some (node.ticksLast % config.pingInterval == 0)

def isExpired (config : Kademlia.Config) (node : KNode) : Bool :=
  node.ticksLast ≥ config.pingTimeout

end KNode

inductive BucketStatus
  | overflowing
  | stable
  | wanting
deriving DecidableEq

structure KBucket where
  active : List KNode
  cache  : List KNode
  config : Kademlia.Config
  isRoot : Bool

namespace KBucket

def new (config : Kademlia.Config) : KBucket :=
  { active := [], cache := [], config, isRoot := false }

def newRoot (config : Kademlia.Config) : KBucket :=
  { active := [], cache := [], config, isRoot := true }

def addNode (b : KBucket) (node : KNode) : KBucket :=
  if b.isRoot || b.cache.length < 2 * b.config.k then { b with cache := b.cache ++ [node] } else b

def addNodes (b : KBucket) (nodes : List KNode) : KBucket :=
  nodes.foldl addNode b

-- `sort_by`, which is stable.
def sortByDepth (nodes : List KNode) : List KNode :=
  nodes.insertionSort fun a b => a.depth ≤ b.depth

def addNodeActive (b : KBucket) (node : KNode) : KBucket :=
  if b.isRoot || b.active.length < b.config.k then
    { b with active := sortByDepth (b.active ++ [node]) }
  else if b.cache.length < b.config.k then { b with cache := b.cache ++ [node] }
  else b

def addNodesActive (b : KBucket) (nodes : List KNode) : KBucket :=
  nodes.foldl addNodeActive b

def removeNode (b : KBucket) (id : NodeID) : KBucket :=
  { b with
    active := b.active.filter fun kn => kn.id ≠ id
    cache  := b.cache.filter fun kn => kn.id ≠ id
  }

-- `n` times, the first node at the depth is moved to another list, if there is one.
def moveAtDepth (depth : Nat) : Nat → List KNode → List KNode × List KNode
  | 0, nodes     => (nodes, [])
  | n + 1, nodes =>
    match nodes.find? (·.depth == depth) with
    | some node =>
      let (nodes, moved) := moveAtDepth depth n (nodes.eraseP (·.depth == depth))
      (nodes, node :: moved)
    | none => moveAtDepth depth n nodes

def removeAllNodesAtDepth (b : KBucket) (depth : Nat) : KBucket × List KNode × List KNode :=
  let maxNodes := b.cache.length + b.active.length - b.config.k
  let (cache, movedCache) := moveAtDepth depth maxNodes b.cache
  let (active, movedActive) := moveAtDepth depth (maxNodes - movedCache.length) b.active
  ({ b with active, cache }, movedActive, movedCache)

def getActiveIds (b : KBucket) (depth : Nat) : List NodeID :=
  b.active.filterMap fun kn => if kn.depth = depth then some kn.id else none

def lastDepth (b : KBucket) : Option Nat :=
  b.active.getLast?.map KNode.depth

def overflowImbalance (b : KBucket) : Bool :=
  let depths := (b.active ++ b.cache).map KNode.depth |>.insertionSort (· ≤ ·)
  match depths.head? with
  | some first => depths.length - depths.count first < b.config.k
  | none       => false

def status (b : KBucket) : BucketStatus :=
  let nodes := b.active.length + b.cache.length
  if nodes ≥ 2 * b.config.k then
    if b.overflowImbalance then .stable else .overflowing
  else if nodes < b.config.k then .wanting
  else .stable

def tickActive (b : KBucket) : Option (KBucket × TickIDs) := do
  let active := b.active.map KNode.tick
  let ping ← active.filterM (KNode.isDue b.config)
  let deleted := active.filter (KNode.isExpired b.config)
  return ({ b with active }, { deleted := deleted.map KNode.id, ping := ping.map KNode.id })

-- The difference panics if there are too many active nodes.
def fillupNodes (b : KBucket) : Option Nat :=
  if b.isRoot then some b.cache.length
  else if b.active.length ≤ b.config.k then some (2 * (b.config.k - b.active.length))
  else none

def tickCache (b : KBucket) : Option (KBucket × TickIDs) := do
  let fillupNodes ← b.fillupNodes
  let (pinged, rest) := b.cache.splitAt fillupNodes
  let ping ← pinged.filterM (KNode.isDue b.config)
  let pinged := pinged.map KNode.tick
  let deleted := pinged.filter (KNode.isExpired b.config)
  return (
    { b with cache := pinged ++ rest },
    { deleted := deleted.map KNode.id, ping := ping.map KNode.id }
  )

def tick (b : KBucket) : Option (KBucket × TickIDs) := do
  let (b, ticks) ← b.tickActive
  let (b, ticksCache) ← b.tickCache
  let ticks := ticks.extend ticksCache
  return (ticks.deleted.foldl removeNode b, ticks)

-- Whether the node is a new active node.
def nodeActive (b : KBucket) (id : NodeID) : KBucket × Bool :=
  match b.active.findIdx? (·.id == id) with
  | some i => ({ b with active := b.active.modify i KNode.active }, false)
  | none   =>
    match b.cache.find? (·.id == id) with
    | some kn =>
      let cache := b.cache.eraseP (·.id == id)
      let kn := kn.active
      if b.isRoot || b.active.length < b.config.k then
        ({ b with active := sortByDepth (b.active ++ [kn]), cache }, true)
      else ({ b with cache := cache ++ [kn] }, false)
    | none => (b, false)

def hasNodeId (b : KBucket) (id : NodeID) : Bool :=
  (b.active ++ b.cache).any (·.id == id)

end KBucket

structure Kademlia where
  buckets    : List KBucket
  rootBucket : KBucket
  root       : NodeID
  config     : Kademlia.Config

namespace Kademlia

def new (root : NodeID) (config : Kademlia.Config) : Kademlia :=
  { buckets := [], rootBucket := .newRoot config, root, config }

def hasNodeId (t : Kademlia) (id : NodeID) : Bool :=
  t.buckets.any (·.hasNodeId id) || t.rootBucket.hasNodeId id

-- The body of the loop of `rebalance_overflow`.
def splitRootBucket (t : Kademlia) : Kademlia :=
  let (rootBucket, active, cache) := t.rootBucket.removeAllNodesAtDepth t.buckets.length
  let bucket := (KBucket.new t.config).addNodesActive active |>.addNodes cache
  { t with rootBucket, buckets := t.buckets ++ [bucket] }

def rebalanceOverflow (fuel : Nat) (t : Kademlia) : Option Kademlia :=
  Loop.run (fun t => t.rootBucket.status == .overflowing) splitRootBucket fuel t

-- The body of the loop of `rebalance_wanting`.
def mergeLastBucket (t : Kademlia) : Kademlia :=
  match t.buckets.getLast? with
  | some bucket =>
    { t with
      buckets    := t.buckets.dropLast
      rootBucket := t.rootBucket.addNodesActive bucket.active |>.addNodes bucket.cache
    }
  | none => t

-- The loop returns when there is no bucket left.
def rebalanceWanting (fuel : Nat) (t : Kademlia) : Option Kademlia :=
  Loop.run (fun t => t.rootBucket.status == .wanting && !t.buckets.isEmpty) mergeLastBucket fuel t

def addNode (fuel : Nat) (t : Kademlia) (id : NodeID) : Option Kademlia :=
  if id == t.root || t.hasNodeId id then some t
  else
    let node := KNode.new t.root id
    match t.buckets[node.depth]? with
    | some bucket => some { t with buckets := t.buckets.set node.depth (bucket.addNode node) }
    | none =>
      let t := { t with rootBucket := t.rootBucket.addNode node }
      if t.rootBucket.status = .overflowing then t.rebalanceOverflow fuel else some t

def addNodes (fuel : Nat) (t : Kademlia) (ids : List NodeID) : Option Kademlia :=
  ids.foldlM (addNode fuel) t

def nodeDisconnected (fuel : Nat) (t : Kademlia) (id : NodeID) : Option Kademlia :=
  let node := KNode.new t.root id
  match t.buckets[node.depth]? with
  | some bucket =>
    let t := { t with buckets := t.buckets.set node.depth (bucket.removeNode node.id) }
    if t.rootBucket.status = .wanting then t.rebalanceWanting fuel else some t
  | none => some t

def removeNode (fuel : Nat) (t : Kademlia) (id : NodeID) : Option Kademlia :=
  let node := KNode.new t.root id
  match t.buckets[node.depth]? with
  | some bucket => some { t with buckets := t.buckets.set node.depth (bucket.removeNode id) }
  | none =>
    let t := { t with rootBucket := t.rootBucket.removeNode id }
    if t.rootBucket.status = .wanting then t.rebalanceWanting fuel else some t

def nodeActive (t : Kademlia) (id : NodeID) : Kademlia × Bool :=
  let depth := KNode.getDepth t.root id
  match t.buckets[depth]? with
  | some bucket =>
    let (bucket, isNew) := bucket.nodeActive id
    ({ t with buckets := t.buckets.set depth bucket }, isNew)
  | none =>
    let (rootBucket, isNew) := t.rootBucket.nodeActive id
    ({ t with rootBucket }, isNew)

def tick (t : Kademlia) : Option (Kademlia × TickIDs) := do
  let ticked ← t.buckets.mapM KBucket.tick
  let (rootBucket, ticks) ← t.rootBucket.tick
  let pingIds := (ticked.map Prod.snd ++ [ticks]).foldl TickIDs.extend {}
  return ({ t with buckets := ticked.map Prod.fst, rootBucket }, pingIds)

def getNodesDepth (t : Kademlia) (depth : Nat) : List NodeID :=
  match t.buckets[depth]? with
  | some b => b.getActiveIds depth
  | none   => t.rootBucket.getActiveIds depth

-- The range of the remaining depths is empty if its end is not behind its start.
def routeClosest (t : Kademlia) (dst : NodeID) (last : Option NodeID) : List NodeID :=
  let depth := KNode.getDepth t.root dst
  match last with
  | some l =>
    let depthLast := max depth (KNode.getDepth t.root l)
    let depthRootLast := t.rootBucket.lastDepth.getD depthLast
    let depths := depth :: List.range' (depthLast + 1) (depthRootLast - (depthLast + 1))
    (depths.map t.getNodesDepth).find? (·.length > 0) |>.getD []
  | none => t.getNodesDepth depth

def activeNodes (t : Kademlia) : List NodeID :=
  (t.buckets.flatMap KBucket.active ++ t.rootBucket.active).map KNode.id

def cacheNodes (t : Kademlia) : List NodeID :=
  (t.buckets.flatMap KBucket.cache ++ t.rootBucket.cache).map KNode.id

end Kademlia
