import Mathlib.Data.List.Nodup

namespace Hermes

structure Page where
  name : String
  id   : String
deriving DecidableEq

-- What a node sends. The values are kept as strings.
structure SimulationSnapshotData where
  nodeStatus      : Option String
  pagesStored     : Option (List Page)
  evilNoForward   : Option Bool
  timedMetrics    : List (String × String)
  timelessMetrics : List (String × String)
deriving DecidableEq

namespace SimulationSnapshotData

variable {data : SimulationSnapshotData} {name value : String}

-- The value of a timeless metric, if the data has one.
def timeless (name : String) (data : SimulationSnapshotData) : Option String :=
  (data.timelessMetrics.find? (·.1 = name)).map Prod.snd

-- No metric has two values.
def Consistent (data : SimulationSnapshotData) : Prop :=
  ∀ m ∈ data.timelessMetrics, ∀ n ∈ data.timelessMetrics, m.1 = n.1 → m.2 = n.2

theorem timeless_eq_none :
    data.timeless name = none ↔ name ∉ data.timelessMetrics.map Prod.fst := by
  rw [timeless, Option.map_eq_none_iff, List.find?_eq_none]
  constructor
  case mp =>
    intro h hn
    obtain ⟨m, hm, he⟩ := List.mem_map.mp hn
    exact h m hm (decide_eq_true he)
  case mpr => exact fun h m hm he => h <| List.mem_map.mpr ⟨m, hm, of_decide_eq_true he⟩

theorem mem_of_find {m : String × String}
    (h : data.timelessMetrics.find? (·.1 = name) = some m) :
    m ∈ data.timelessMetrics ∧ m.1 = name := by
  have hn := List.find?_some h
  exact ⟨List.mem_of_find?_eq_some h, of_decide_eq_true hn⟩

theorem Consistent.timeless_eq_some (hc : data.Consistent) :
    data.timeless name = some value ↔ (name, value) ∈ data.timelessMetrics := by
  constructor
  case mp  =>
    intro h
    obtain ⟨m, hm, rfl⟩ := Option.map_eq_some_iff.mp h
    obtain ⟨hd, rfl⟩ := mem_of_find hm
    exact hd
  case mpr =>
    intro h
    cases ht : data.timeless name
    case none   => exact absurd (List.mem_map_of_mem h) (timeless_eq_none.mp ht)
    case some v =>
      obtain ⟨m, hm, rfl⟩ := Option.map_eq_some_iff.mp ht
      obtain ⟨hm, hn⟩ := mem_of_find hm
      rw [hc m hm _ h hn]

theorem consistent_of_nodup (h : (data.timelessMetrics.map Prod.fst).Nodup) : data.Consistent :=
  fun _ hm _ hn he => congrArg Prod.snd <| List.inj_on_of_nodup_map h hm hn he

end SimulationSnapshotData

structure DsMetrics where
  storeFloTotal                     : UInt32
  requestFloMetasSentTotal          : UInt32
  floValueSentTotal                 : UInt32
  floValueSentBlockedTotal          : UInt32
  availableFlosSentTotal            : UInt32
  availableFlosSentBlockedTotal     : UInt32
  flosSentTotal                     : UInt32
  flosSentBlockedTotal              : UInt32
  maxFloMetasReceivedInAvailableFlos : UInt32
  maxFloMetasRequestedInRequestFlos : UInt32
  maxFloIdsReceivedInRequestFlos    : UInt32
  maxFlosSentInFlos                 : UInt32
  maxFlosReceivedInFlos             : UInt32

structure SimulationState where
  nodeStatus                     : String
  pagesStored                    : List Page
  connectedNodesTotal            : UInt32
  dsSizeBytes                    : UInt64
  evilNoForward                  : Bool
  targetSuccessfullyFetchedTotal : UInt32
  fetchRequestsTotal             : UInt32
  dsMetrics                      : DsMetrics

-- What is sent to the server.
structure Snapshot where
  nodeStatus      : String
  pagesStored     : List Page
  evilNoForward   : Bool
  timedMetrics    : List (String × UInt32)
  timelessMetrics : List (String × UInt32)

namespace Snapshot

def make (state : SimulationState) : Snapshot where
  nodeStatus      := state.nodeStatus
  pagesStored     := state.pagesStored
  evilNoForward   := state.evilNoForward
  timedMetrics    := [("pages_stored", UInt32.ofNat state.pagesStored.length)]
  timelessMetrics := [
    ("connected_nodes_total", state.connectedNodesTotal),
    ("pages_stored_total", UInt32.ofNat state.pagesStored.length),
    ("ds_size_bytes", state.dsSizeBytes.toUInt32),
    ("evil_no_forward", state.evilNoForward.toUInt32),
    ("store_flo_total", state.dsMetrics.storeFloTotal),
    ("request_flo_metas_sent_total", state.dsMetrics.requestFloMetasSentTotal),
    ("flo_value_sent_total", state.dsMetrics.floValueSentTotal),
    ("flo_value_sent_blocked_total", state.dsMetrics.floValueSentBlockedTotal),
    ("available_flos_sent_total", state.dsMetrics.availableFlosSentTotal),
    ("available_flos_sent_blocked_total", state.dsMetrics.availableFlosSentBlockedTotal),
    ("flos_sent_total", state.dsMetrics.flosSentTotal),
    ("flos_sent_blocked_total", state.dsMetrics.flosSentBlockedTotal),
    ("max_flo_metas_received_in_available_flos",
      state.dsMetrics.maxFloMetasReceivedInAvailableFlos),
    ("max_flo_metas_requested_in_request_flos", state.dsMetrics.maxFloMetasRequestedInRequestFlos),
    ("max_flo_ids_received_in_request_flos", state.dsMetrics.maxFloIdsReceivedInRequestFlos),
    ("max_flos_sent_in_flos", state.dsMetrics.maxFlosSentInFlos),
    ("max_flos_received_in_flos", state.dsMetrics.maxFlosReceivedInFlos),
    ("target_successfully_fetched_total", state.targetSuccessfullyFetchedTotal),
    ("fetch_requests_total", state.fetchRequestsTotal)]

-- How the server reads it.
def toData (s : Snapshot) : SimulationSnapshotData where
  nodeStatus      := s.nodeStatus
  pagesStored     := s.pagesStored
  evilNoForward   := s.evilNoForward
  timedMetrics    := s.timedMetrics.map fun m => (m.1, toString m.2.toNat)
  timelessMetrics := s.timelessMetrics.map fun m => (m.1, toString m.2.toNat)

-- The nodes send each metric once.
theorem consistent_make (state : SimulationState) : (make state).toData.Consistent := by
  apply SimulationSnapshotData.consistent_of_nodup
  rw [toData, List.map_map]
  simp only [make, List.map_cons, List.map_nil, Function.comp_apply]
  decide

end Snapshot

end Hermes
