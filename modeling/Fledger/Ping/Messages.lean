import Mathlib.Data.List.Count
import Fledger.Lib.Since
import Fledger.Ping.Core

namespace Ping

inductive ModuleMessage
  | ping
  | pong
deriving DecidableEq

inductive PingIn
  | tick
  | fromNetwork (id : NodeID) (msg : ModuleMessage)
  | updateNodeList (ids : List NodeID)
  | disconnectNode (id : NodeID)
deriving DecidableEq

inductive PingOut
  | toNetwork (id : NodeID) (msg : ModuleMessage)
  | failed (id : NodeID)
deriving DecidableEq

structure Messages where
  storage : PingStorage

namespace Messages

def new (config : PingConfig) : Messages where
  storage := .new config

def createMessages (m : Messages) : Messages × List PingOut :=
  ({ m with storage := { m.storage with ping := [], failed := [] } },
    m.storage.ping.map (.toNetwork · .ping) ++ m.storage.failed.map .failed)

def tick (m : Messages) : Messages × List PingOut :=
  createMessages { m with storage := m.storage.tick }

def message (m : Messages) (id : NodeID) : ModuleMessage → Messages × List PingOut
  | .ping => (m, if id ∈ m.storage.stats then [.toNetwork id .pong] else [])
  | .pong => ({ m with storage := m.storage.pong id }, [])

def setNodes (m : Messages) (ids : List NodeID) : Messages × List PingOut :=
  ({ m with storage := m.storage.setNodes ids }, [])

def processMsg (m : Messages) : PingIn → Messages × List PingOut
  | .tick               => m.tick
  | .fromNetwork id msg => m.message id msg
  | .updateNodeList ids => m.setNodes ids
  | .disconnectNode id  => ({ m with storage := m.storage.removeNode id }, [])

def messages (m : Messages) : List PingIn → Messages × List PingOut
  | []          => (m, [])
  | msg :: msgs =>
    let (m, out)  := m.processMsg msg
    let (m, out') := m.messages msgs
    (m, out ++ out')

def next (m : Messages) (msg : PingIn) : Messages :=
  (m.processMsg msg).1

end Messages

-- What a message means for the entry of one node.
def PingIn.next (config : PingConfig) (id : NodeID) : PingIn → Option PingStat → Option PingStat
  | .tick, stat               =>
    stat.bind fun stat => if stat.failed config then none else some (stat.countdown config)
  | .fromNetwork _ .ping, stat => stat
  | .fromNetwork i .pong, stat =>
    if id = i then
      some <| stat.elim .new fun stat => { stat with lastping := 0, rx := stat.rx + 1 }
    else stat
  | .updateNodeList ids, stat => if id ∈ ids then some (stat.getD .new) else none
  | .disconnectNode i, stat   => if id = i then none else stat

namespace Messages

variable {m : Messages} {msg : PingIn} {msgs : List PingIn} {id : NodeID}

theorem config_next : (m.next msg).storage.config = m.storage.config := by
  cases msg
  case tick => exact PingStorage.config_tick
  case fromNetwork i msg =>
    cases msg
    case ping => rfl
    case pong => exact PingStorage.config_pong
  case updateNodeList ids => exact PingStorage.config_setNodes ids
  case disconnectNode     => rfl

-- The entries of the nodes are independent of each other.
theorem lookup_next :
    (m.next msg).storage.stats.lookup id =
      msg.next m.storage.config id (m.storage.stats.lookup id) := by
  cases msg
  case tick => exact PingStorage.lookup_tick
  case fromNetwork i msg =>
    cases msg
    case ping => rfl
    case pong => exact PingStorage.lookup_pong
  case updateNodeList ids => exact PingStorage.lookup_setNodes ids
  case disconnectNode i   => exact HashMap.lookup_erase_eq id i

theorem messages_eq_foldl : (m.messages msgs).1 = msgs.foldl next m := by
  induction msgs generalizing m
  case nil           => rfl
  case cons msg _ hi => exact hi

theorem messages_append (msgs' : List PingIn) :
    (m.messages (msgs ++ msgs')).2 =
      (m.messages msgs).2 ++ ((m.messages msgs).1.messages msgs').2 := by
  induction msgs generalizing m
  case nil => rfl
  case cons msg msgs hi => simp [messages, hi]

theorem count_createMessages (m : Messages) (id : NodeID) :
    m.createMessages.2.count (.failed id) = m.storage.failed.count id ∧
      m.createMessages.2.count (.toNetwork id .ping) = m.storage.ping.count id := by
  have hf : Function.Injective PingOut.failed := fun _ _ h => PingOut.failed.inj h
  have hp : Function.Injective (PingOut.toNetwork · .ping) := fun _ _ h =>
    (PingOut.toNetwork.inj h).left
  simp only [createMessages, List.count_append, List.count_map_of_injective _ _ hf,
    List.count_map_of_injective _ _ hp]
  constructor
  case left  => simp [List.count_eq_zero]
  case right => simp [List.count_eq_zero]

-- Only ticks report failures.
theorem count_failed :
    (m.processMsg msg).2.count (.failed id) =
      if msg = .tick ∧ (m.storage.stats.lookup id).any (·.failed m.storage.config) then 1
      else 0 := by
  cases msg
  case tick =>
    have hc := (count_createMessages { m with storage := m.storage.tick } id).left
    simp only [true_and]
    exact hc.trans PingStorage.count_failed_tick
  case fromNetwork i msg =>
    cases msg
    case ping =>
      rw [processMsg, message]
      split <;> simp
    case pong => rfl
  all_goals rfl

-- Only ticks send pings.
theorem count_ping :
    (m.processMsg msg).2.count (.toNetwork id .ping) =
      if msg = .tick ∧ (m.storage.stats.lookup id).any (·.pinged m.storage.config) then 1
      else 0 := by
  cases msg
  case tick =>
    have hc := (count_createMessages { m with storage := m.storage.tick } id).right
    simp only [true_and]
    exact hc.trans PingStorage.count_ping_tick
  case fromNetwork i msg =>
    cases msg
    case ping =>
      rw [processMsg, message]
      split <;> simp
    case pong => rfl
  all_goals rfl

-- The pings which wait to be sent.
theorem count_queued :
    (m.next msg).storage.ping.count id =
      if msg = .tick then 0
      else
        m.storage.ping.count id +
          if id ∉ m.storage.stats ∧ id ∈ (m.next msg).storage.stats then 1 else 0 := by
  have hs : id ∉ m.storage.stats ∧ id ∈ (m.next msg).storage.stats ↔
      id ∉ m.storage.stats ∧ (msg.next m.storage.config id none).isSome := by
    rw [HashMap.not_mem_iff_lookup, HashMap.mem_iff_lookup, lookup_next,
      Option.isSome_iff_exists]
    exact and_congr_right fun hn => by rw [hn]
  rw [if_congr hs rfl rfl]
  cases msg
  case tick => rfl
  case fromNetwork i msg =>
    cases msg
    case ping => simp [PingIn.next, next, processMsg, message]
    case pong =>
      refine PingStorage.count_ping_pong.trans ?_
      by_cases hi : id = i <;> simp [PingIn.next, hi]
  case updateNodeList ids =>
    refine (PingStorage.count_ping_setNodes ids).trans ?_
    by_cases hi : id ∈ ids <;> simp [PingIn.next, hi]
  case disconnectNode i =>
    simp [PingIn.next, next, processMsg, PingStorage.removeNode]

end Messages

end Ping
