import Mathlib.Data.Finset.Basic
import Mathlib.Data.List.Nodup
import Mathlib.Data.List.Range
import Fledger.Network.Signal

-- A socket which was accepted, with the id under which its reader emits the messages.
structure WSConnection where
  id : Nat
deriving DecidableEq

-- How a turn of the accept loop ends.
inductive Accepted
  | connection
  | handshakeError
  | acceptError
deriving DecidableEq

-- What a command does to the sockets, given by the ids with which they were announced.
inductive SocketOut
  | sent (id : Nat) (text : String)
  | closed (id : Nat)
deriving DecidableEq

-- The accept loop is represented by its counter, as long as it is not aborted.
structure WebSocketServer where
  connections : List WSConnection
  connThread  : Option Nat

namespace WebSocketServer

def new : WebSocketServer :=
  { connections := [], connThread := some 0 }

-- A turn of the accept loop, which also counts the connections that fail.
def accept (s : WebSocketServer) (accepted : Accepted) : WebSocketServer × List WSServerOut :=
  match s.connThread, accepted with
  | none, _                        => (s, [])
  | some connectionId, .connection => (
      { connections := s.connections ++ [⟨connectionId⟩], connThread := some (connectionId + 1) },
      [.newConnection connectionId]
    )
  | some connectionId, _           => ({ s with connThread := some (connectionId + 1) }, [])

-- The sockets are looked up, and removed, by their positions. `sends` is whether the socket takes
-- the text.
def message (s : WebSocketServer) (sends : Bool) : WSServerIn → WebSocketServer × List SocketOut
  | .message id msg =>
    match s.connections[id]? with
    | some conn =>
      if sends then (s, [.sent conn.id msg])
      else ({ s with connections := s.connections.eraseIdx id }, [.closed conn.id])
    | none      => (s, [])
  | .close id       =>
    match s.connections[id]? with
    | some conn => ({ s with connections := s.connections.eraseIdx id }, [.closed conn.id])
    | none      => (s, [])
  | .stop           => ({ s with connThread := none }, [])

-- The ids of the open sockets.
def ids (s : WebSocketServer) : List Nat :=
  s.connections.map WSConnection.id

end WebSocketServer

-- What the commands are for, on a set of open sockets.
def SocketOut.commanded (sockets : Finset Nat) (sends : Bool) :
    WSServerIn → Finset Nat × List SocketOut
  | .message id msg =>
    if id ∉ sockets then (sockets, [])
    else if sends then (sockets, [.sent id msg])
    else (sockets.erase id, [.closed id])
  | .close id       => if id ∉ sockets then (sockets, []) else (sockets.erase id, [.closed id])
  | .stop           => (sockets, [])

inductive WSServerEvent
  | accept (accepted : Accepted)
  | command (msg : WSServerIn) (sends : Bool)

namespace WebSocketServer

def step (s : WebSocketServer) : WSServerEvent → WebSocketServer
  | .accept accepted   => (s.accept accepted).1
  | .command msg sends => (s.message sends msg).1

-- All turns of the accept loop and all commands, in the order in which they happen.
def run (events : List WSServerEvent) : WebSocketServer :=
  events.foldl step new

-- Each command reaches the socket which was announced with its id, and no other one.
def Addressed (s : WebSocketServer) : Prop :=
  ∀ sends msg, (s.message sends msg).2 = (SocketOut.commanded s.ids.toFinset sends msg).2 ∧
    (s.message sends msg).1.ids.toFinset = (SocketOut.commanded s.ids.toFinset sends msg).1

-- A connection is only accepted while all earlier ones are open, and only the last one is closed.
def Keeps (s : WebSocketServer) : WSServerEvent → Prop
  | .accept .connection            => ∀ n, s.connThread = some n → n = s.connections.length
  | .accept _                      => True
  | .command (.message id _) sends => sends ∨ id ∉ s.ids ∨ id + 1 = s.connections.length
  | .command (.close id) _         => id ∉ s.ids ∨ id + 1 = s.connections.length
  | .command .stop _               => True

variable {s : WebSocketServer} {id n : Nat} {event : WSServerEvent} {events : List WSServerEvent}

-- The sockets are in the positions of their ids.
def Aligned (s : WebSocketServer) : Prop :=
  s.ids = List.range s.connections.length

theorem Aligned.mem_ids (h : s.Aligned) : id ∈ s.ids ↔ id < s.connections.length := by
  rw [h, List.mem_range]

theorem Aligned.nodup (h : s.Aligned) : s.ids.Nodup :=
  h ▸ List.nodup_range

theorem Aligned.ids_getElem? (h : s.Aligned) (hm : id ∈ s.ids) : s.ids[id]? = some id := by
  rw [h, List.getElem?_range (h.mem_ids.mp hm)]

theorem Aligned.getElem? (h : s.Aligned) (hm : id ∈ s.ids) : s.connections[id]? = some ⟨id⟩ := by
  have hid := h.ids_getElem? hm
  rw [ids, List.getElem?_map] at hid
  obtain ⟨conn, hc, rfl⟩ := Option.map_eq_some_iff.mp hid
  exact hc

theorem Aligned.getElem?_eq_none (h : s.Aligned) (hm : id ∉ s.ids) : s.connections[id]? = none :=
  List.getElem?_eq_none <| Nat.le_of_not_lt fun hlt => hm <| h.mem_ids.mpr hlt

theorem ids_eraseIdx (id : Nat) :
    ids { s with connections := s.connections.eraseIdx id } = s.ids.eraseIdx id := by
  simp [ids, List.eraseIdx_map]

theorem Aligned.toFinset_eraseIdx (h : s.Aligned) (hm : id ∈ s.ids) :
    (s.ids.eraseIdx id).toFinset = s.ids.toFinset.erase id := by
  have ⟨hlt, hid⟩ := List.getElem?_eq_some_iff.mp (h.ids_getElem? hm)
  rw [← h.nodup.erase_getElem id hlt, hid]
  ext id'
  simp [h.nodup.mem_erase_iff]

-- Without its element at a position, a range is one only if this was its last element.
theorem eraseIdx_range_iff (hlt : id < n) :
    (List.range n).eraseIdx id = List.range (n - 1) ↔ id + 1 = n := by
  constructor
  case mp =>
    intro h
    by_contra hne
    have he := congrArg (·[id]?) h
    simp only [List.getElem?_eraseIdx, lt_irrefl, if_false] at he
    rw [List.getElem?_range (by omega), List.getElem?_range (by omega)] at he
    simp at he
  case mpr =>
    rintro rfl
    rw [List.range_succ, List.eraseIdx_append_of_length_le (by simp)]
    simp

theorem Aligned.eraseIdx_iff (h : s.Aligned) (hm : id ∈ s.ids) :
    Aligned { s with connections := s.connections.eraseIdx id } ↔
      id + 1 = s.connections.length := by
  have hlt := h.mem_ids.mp hm
  rw [Aligned, ids_eraseIdx, h, List.length_eraseIdx_of_lt hlt]
  exact eraseIdx_range_iff hlt

theorem addressed_iff : s.Addressed ↔ s.Aligned := by
  constructor
  case mp =>
    intro h
    apply List.ext_getElem?
    intro k
    cases hc : s.connections[k]?
    case none =>
      have hle := List.getElem?_eq_none_iff.mp hc
      simp [ids, hle]
    case some conn =>
      have hlt := (List.getElem?_eq_some_iff.mp hc).choose
      have hsent := (h true (.message k "")).left
      simp only [message, hc, if_true, SocketOut.commanded] at hsent
      have hk : conn.id = k := by
        split at hsent <;> simp at hsent
        exact hsent
      rw [ids, List.getElem?_map, hc, List.getElem?_range hlt, Option.map_some, hk]
  case mpr =>
    intro h sends msg
    cases msg
    case stop => exact ⟨rfl, rfl⟩
    case message id text =>
      by_cases hm : id ∈ s.ids
      case neg => simp [message, SocketOut.commanded, h.getElem?_eq_none hm, hm]
      case pos =>
        cases sends <;>
          simp [message, SocketOut.commanded, h.getElem? hm, hm, ids_eraseIdx, h.toFinset_eraseIdx hm]
    case close id =>
      by_cases hm : id ∈ s.ids
      case neg => simp [message, SocketOut.commanded, h.getElem?_eq_none hm, hm]
      case pos =>
        simp [message, SocketOut.commanded, h.getElem? hm, hm, ids_eraseIdx, h.toFinset_eraseIdx hm]

theorem Aligned.accept_iff (h : s.Aligned) {accepted : Accepted} :
    (s.accept accepted).1.Aligned ↔ s.Keeps (.accept accepted) := by
  cases hn : s.connThread
  case none => cases accepted <;> simpa [accept, hn, Keeps] using h
  case some n =>
    cases accepted
    case connection =>
      have hids : ids (s.accept .connection).1 = s.ids ++ [n] := by simp [accept, hn, ids]
      have hlen : (s.accept .connection).1.connections.length = s.connections.length + 1 := by
        simp [accept, hn]
      rw [Aligned, hids, hlen, h, List.range_succ]
      simp [Keeps, hn]
    all_goals simpa [accept, hn, Keeps, Aligned, ids] using h

theorem Aligned.step_iff (h : s.Aligned) : (s.step event).Aligned ↔ s.Keeps event := by
  cases event
  case accept accepted => exact h.accept_iff
  case command msg sends =>
    cases msg
    case stop => simpa [step, message, Keeps, Aligned, ids] using h
    case message id text =>
      by_cases hm : id ∈ s.ids
      case neg => simpa [step, message, Keeps, h.getElem?_eq_none hm, hm] using h
      case pos =>
        cases sends
        case true  => simpa [step, message, Keeps, h.getElem? hm] using h
        case false => simpa [step, message, Keeps, h.getElem? hm, hm] using h.eraseIdx_iff hm
    case close id =>
      by_cases hm : id ∈ s.ids
      case neg => simpa [step, message, Keeps, h.getElem?_eq_none hm, hm] using h
      case pos => simpa [step, message, Keeps, h.getElem? hm, hm] using h.eraseIdx_iff hm

-- The commands reach their sockets in all states of a run if and only if all its steps keep the
-- positions of the sockets.
theorem addressed_iff_keeps (events : List WSServerEvent) :
    (∀ es, es <+: events → (run es).Addressed) ↔
      ∀ es event, es ++ [event] <+: events → (run es).Keeps event := by
  simp only [addressed_iff]
  constructor
  case mp =>
    intro h es event hp
    have hs := h (es ++ [event]) hp
    rw [run, List.foldl_append] at hs
    exact (h es <| (List.prefix_append _ _).trans hp).step_iff.mp hs
  case mpr =>
    intro h es hp
    induction es using List.reverseRecOn
    case nil => rfl
    case append_singleton es event hi =>
      have ha := hi <| (List.prefix_append _ _).trans hp
      rw [run, List.foldl_append]
      exact ha.step_iff.mpr <| h es event hp

-- After the first of two sockets is closed, its id is the one of the second socket.
theorem closed_not_addressed :
    ¬(run [.accept .connection, .accept .connection, .command (.close 0) true]).Addressed := by
  intro h
  have hm := (h true (.message 0 "")).left
  revert hm
  decide

end WebSocketServer
