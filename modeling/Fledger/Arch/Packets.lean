import Fledger.Arch.Nodeids
import Fledger.Lib.Chunks
import Fledger.Lib.HashMap
import Mathlib.Data.List.Dedup
import Mathlib.Data.List.ReduceOption
import Mathlib.Data.List.FinRange
import Mathlib.Data.List.Nodup

namespace List

variable {α : Type*} {xs : List α}

theorem Perm.exists_map {β : Type*} {f : α → β} {ys : List β} (h : ys.Perm (xs.map f)) :
    ∃ zs : List α, zs.Perm xs ∧ zs.map f = ys := by
  induction ys generalizing xs
  case nil => exact ⟨xs, .refl _, h.nil_eq.symm⟩
  case cons y ys hi =>
    obtain ⟨x, hx, rfl⟩ := mem_map.mp <| h.subset mem_cons_self
    obtain ⟨s, t, rfl⟩ := append_of_mem hx
    have hp : (f x :: ys).Perm (f x :: (s ++ t).map f) :=
      h.trans <| perm_middle.map f
    obtain ⟨zs, hz, rfl⟩ := hi <| (perm_cons _).mp hp
    exact ⟨x :: zs, (hz.cons x).trans perm_middle.symm, rfl⟩

end List

theorem String.utf8ByteSize_ofList_eq_sum (cs : List Char) :
    (String.ofList cs).utf8ByteSize = (cs.map Char.utf8Size).sum := by
  induction cs
  case nil => rfl
  case cons c cs hi =>
    rw [String.ofList_cons, String.utf8ByteSize_append, String.utf8ByteSize_singleton, hi,
      List.map_cons, List.sum_cons]

-- A part of a text which may be too large for WebRTC.
structure Packet where
  id    : Option U256
  part  : Option Nat
  total : Option Nat
  data  : String
deriving DecidableEq

-- Packets are written by `serde_json`, and read by `serde_yaml`.
class PacketSerde where
  toString : Packet → String
  fromStr  : String → Option Packet

def webrtcMaxSize := 16384

namespace Packet

def getParams (p : Packet) : Option (U256 × Nat × Nat) := do
  return (← p.id, ← p.total, ← p.part)

-- `slice::chunks` of the characters.
def chunks (msg : String) : List String :=
  (msg.toList.toChunks webrtcMaxSize).map String.ofList

variable [PacketSerde]

def splitMsg (rnd : U256) (msg : String) : List String :=
  if msg.utf8ByteSize ≤ webrtcMaxSize then
    [PacketSerde.toString { id := none, part := none, total := none, data := msg }]
  else
    (chunks msg).zipIdx.map fun (data, part) => PacketSerde.toString
      { id := some rnd, part := some part, total := some (chunks msg).length, data }

end Packet

structure PacketCollector where
  packets : HashMap U256 (List (Option String)) := ∅

namespace PacketCollector

abbrev Rehash :=
  HashMap.Rehash U256 (List (Option String))

-- What `new_packet` does once `vec![None; total]` is there.
def takePacket (rehash : Rehash) (c : PacketCollector) (p : Packet) :
    PacketCollector × Option String :=
  match p.getParams with
  | none                   => (c, some p.data)
  | some (id, total, part) =>
    let parts := (c.packets.lookup id).getD (List.replicate total none)
    let packets := (rehash <| c.packets.insert id (parts.set part (some p.data))).1
    match (packets.pairs.find? (·.2.all Option.isSome)).map Prod.fst with
    | none    => ({ packets }, none)
    | some id =>
      ({ packets := packets.erase id },
        (packets.lookup id).map fun parts => String.join parts.reduceOption)

variable [PacketSerde]

def takePacketStr (rehash : Rehash) (c : PacketCollector) (s : String) :
    PacketCollector × Option String :=
  match PacketSerde.fromStr s with
  | none   => (c, none)
  | some p => c.takePacket rehash p

-- As many slots as `isize::MAX` bytes hold. An `Option<String>` takes three words.
def maxSlots [Target] : Nat :=
  (256 ^ usizeBytes / 2 - 1) / (3 * usizeBytes)

-- `vec![None; total]` panics if there are more slots, also if it is not needed.
def newPacket [Target] (rehash : Rehash) (c : PacketCollector) (p : Packet) :
    Option (PacketCollector × Option String) :=
  match p.getParams with
  | none               => some (c.takePacket rehash p)
  | some (_, total, _) => if total ≤ maxSlots then some (c.takePacket rehash p) else none

def newPacketStr [Target] (rehash : Rehash) (c : PacketCollector) (s : String) :
    Option (PacketCollector × Option String) :=
  match PacketSerde.fromStr s with
  | none   => some (c, none)
  | some p => c.newPacket rehash p

-- The packet is said to be one of too many.
def Overflows [Target] (s : String) : Prop :=
  ∃ p id total part, PacketSerde.fromStr s = some p ∧ p.getParams = some (id, total, part) ∧
    maxSlots < total

theorem newPacketStr_of_overflows [Target] {c : PacketCollector} {s : String} (rehash : Rehash)
    (h : Overflows s) : c.newPacketStr rehash s = none := by
  obtain ⟨p, id, total, part, hs, hp, ht⟩ := h
  simp only [newPacketStr, hs, newPacket, hp]
  exact if_neg <| Nat.not_le.mpr ht

theorem newPacketStr_of_not_overflows [Target] {c : PacketCollector} {s : String}
    (rehash : Rehash) (h : ¬ Overflows s) :
    c.newPacketStr rehash s = some (c.takePacketStr rehash s) := by
  unfold newPacketStr takePacketStr
  cases hs : PacketSerde.fromStr s
  case none   => rfl
  case some p =>
    simp only [newPacket]
    cases hp : p.getParams
    case none        => rfl
    case some params =>
      obtain ⟨id, total, part⟩ := params
      refine if_pos <| Nat.not_lt.mp fun ht => h ⟨p, id, total, part, hs, hp, ht⟩

-- What comes out of a collector packet by packet.
def collect (c : PacketCollector) : List (Rehash × String) → PacketCollector × List (Option String)
  | []                  => (c, [])
  | (rehash, s) :: feed =>
    let (c, out)  := c.takePacketStr rehash s
    let (c, outs) := c.collect feed
    (c, out :: outs)

end PacketCollector

namespace Packet

variable {rnd : U256} {msg : String} {p : Packet} {left : Nat → Prop} [DecidablePred left]

-- The texts into which a message is split.
def parts (msg : String) : List String :=
  if msg.utf8ByteSize ≤ webrtcMaxSize then [msg] else chunks msg

-- The packets into which a message is split.
def packets (rnd : U256) (msg : String) : List Packet :=
  if msg.utf8ByteSize ≤ webrtcMaxSize then
    [{ id := none, part := none, total := none, data := msg }]
  else
    (chunks msg).zipIdx.map fun (data, part) =>
      { id := some rnd, part := some part, total := some (chunks msg).length, data }

theorem length_packets (rnd : U256) (msg : String) :
    (packets rnd msg).length = (parts msg).length := by
  unfold packets parts
  split <;> simp

theorem packets_of_le (h : msg.utf8ByteSize ≤ webrtcMaxSize) :
    packets rnd msg = [{ id := none, part := none, total := none, data := msg }] :=
  if_pos h

theorem parts_of_le (h : msg.utf8ByteSize ≤ webrtcMaxSize) : parts msg = [msg] :=
  if_pos h

-- The packet of a part.
def numbered (rnd : U256) (msg : String) (part : Nat) (data : String) : Packet :=
  { id := some rnd, part := some part, total := some (parts msg).length, data }

theorem getElem?_packets (h : webrtcMaxSize < msg.utf8ByteSize) (k : Nat) :
    (packets rnd msg)[k]? = (parts msg)[k]?.map (numbered rnd msg k) := by
  have hp : parts msg = chunks msg := if_neg h.not_ge
  unfold packets numbered
  simp [hp, if_neg h.not_ge, Option.map_map, Function.comp_def]

theorem splitMsg_eq [PacketSerde] (rnd : U256) (msg : String) :
    splitMsg rnd msg = (packets rnd msg).map PacketSerde.toString := by
  unfold splitMsg packets
  split
  case isTrue  => rfl
  case isFalse => rw [List.map_map]; rfl

theorem join_parts (msg : String) : String.join (parts msg) = msg := by
  unfold parts
  split
  case isTrue  => simp
  case isFalse =>
    refine String.toList_inj.mp ?_
    rw [String.toList_join, chunks, List.flatMap_map]
    simp [List.flatMap_id', List.flatten_toChunks]

theorem parts_ne_nil (msg : String) : parts msg ≠ [] := by
  unfold parts
  split
  case isTrue  => exact List.cons_ne_nil _ _
  case isFalse h =>
    refine fun hn => List.toChunks_ne_nil webrtcMaxSize ?_ (List.map_eq_nil_iff.mp hn)
    refine fun he => h ?_
    cases String.toList_eq_nil_iff.mp he
    decide

-- The parts which have arrived, when some are left.
def slots (msg : String) (left : Nat → Prop) [DecidablePred left] : List (Option String) :=
  (parts msg).zipIdx.map fun (data, part) => if left part then none else some data

theorem length_slots : (slots msg left).length = (parts msg).length := by
  simp [slots]

theorem getElem?_slots (k : Nat) :
    (slots msg left)[k]? = (parts msg)[k]?.map fun data => if left k then none else some data := by
  simp [slots, Option.map_map, Function.comp_def]

theorem slots_of_all (h : ∀ k < (parts msg).length, left k) :
    slots msg left = List.replicate (parts msg).length none := by
  refine List.ext_getElem? fun k => ?_
  rw [getElem?_slots, List.getElem?_replicate]
  by_cases hk : k < (parts msg).length
  case pos => simp [hk, h k hk]
  case neg => simp [hk]

theorem reduceOption_slots (h : ∀ k < (parts msg).length, ¬ left k) :
    (slots msg left).reduceOption = parts msg := by
  have hs : slots msg left = (parts msg).map some := by
    refine List.ext_getElem? fun k => ?_
    rw [getElem?_slots, List.getElem?_map]
    by_cases hk : k < (parts msg).length
    case pos => simp [hk, h k hk]
    case neg => simp [hk]
  rw [hs, List.reduceOption, List.filterMap_map]
  exact List.filterMap_some

theorem all_slots : (slots msg left).all Option.isSome ↔ ∀ k < (parts msg).length, ¬ left k := by
  rw [List.all_eq_true]
  constructor
  case mp =>
    intro h k hk hl
    have hs : (slots msg left)[k]? = some none := by simp [getElem?_slots, hk, hl]
    simpa using h none (List.mem_of_getElem? hs)
  case mpr =>
    intro h o ho
    obtain ⟨k, hk⟩ := List.getElem?_of_mem ho
    rw [getElem?_slots, Option.map_eq_some_iff] at hk
    obtain ⟨data, hd, rfl⟩ := hk
    simp [h k (List.getElem?_eq_some_iff.mp hd).1]

theorem set_slots {left' : Nat → Prop} [DecidablePred left'] {k : Nat} {data : String}
    (hd : (parts msg)[k]? = some data) (hk : ¬ left' k) (hl : ∀ j ≠ k, left j ↔ left' j) :
    (slots msg left).set k (some data) = slots msg left' := by
  refine List.ext_getElem? fun j => ?_
  by_cases hj : j = k
  case pos =>
    subst hj
    have hlt : j < (slots msg left).length := by
      rw [length_slots]
      exact (List.getElem?_eq_some_iff.mp hd).1
    rw [List.getElem?_set_self hlt, getElem?_slots, hd]
    simp [hk]
  case neg =>
    rw [List.getElem?_set_ne (Ne.symm hj), getElem?_slots, getElem?_slots]
    simp [hl j hj]

end Packet

namespace PacketCollector

-- A finite family of messages, and the ids which are drawn for them.
variable {n : Nat} {rnd : Fin n → U256} {msg : Fin n → String}

-- The packets of all messages, each with the message it is of.
def sent [PacketSerde] (rnd : Fin n → U256) (msg : Fin n → String) : List (Fin n × String) :=
  (List.finRange n).flatMap fun i => (Packet.splitMsg (rnd i) (msg i)).map fun s => (i, s)

-- What has to come out when the packets of these messages come in: each message with its last one.
def due (msg : Fin n → String) : List (Fin n) → List (Option String)
  | []      => []
  | i :: is => (if i ∈ is then none else some (msg i)) :: due msg is

-- The id of a message with several packets is not drawn for another one.
def Distinct (rnd : Fin n → U256) (msg : Fin n → String) : Prop :=
  ∀ i j, i ≠ j → 1 < (Packet.packets (rnd i) (msg i)).length →
    webrtcMaxSize < (msg j).utf8ByteSize → rnd i ≠ rnd j

-- What is sent can be read.
def Readable [PacketSerde] (rnd : Fin n → U256) (msg : Fin n → String) : Prop :=
  ∀ i, ∀ p ∈ Packet.packets (rnd i) (msg i),
    PacketSerde.fromStr (PacketSerde.toString p) = some p

-- The packets by their position in their message.
def positions (msg : Fin n → String) : List (Fin n × Nat) :=
  (List.finRange n).flatMap fun i => (List.range (Packet.parts (msg i)).length).map fun k => (i, k)

theorem mem_positions {i : Fin n} {k : Nat} :
    (i, k) ∈ positions msg ↔ k < (Packet.parts (msg i)).length := by
  simp [positions]

theorem nodup_positions (msg : Fin n → String) : (positions msg).Nodup := by
  refine List.nodup_flatMap.mpr ⟨fun i _ => ?_, ?_⟩
  case refine_1 =>
    exact List.nodup_range.map fun _ _ h => (Prod.mk.inj h).2
  case refine_2 =>
    refine (List.nodup_finRange n).imp fun {i j} hij => ?_
    intro x hi hj
    obtain ⟨_, _, rfl⟩ := List.mem_map.mp hi
    obtain ⟨_, _, he⟩ := List.mem_map.mp hj
    exact hij (Prod.mk.inj he).1.symm

-- What the collector holds when some packets are left.
structure Pending (rnd : Fin n → U256) (msg : Fin n → String) (c : PacketCollector)
    (left : List (Fin n × Nat)) : Prop where
  lookup_eq : ∀ i, webrtcMaxSize < (msg i).utf8ByteSize →
    c.packets.lookup (rnd i) =
      if (∀ k < (Packet.parts (msg i)).length, (i, k) ∈ left) ∨
        (∀ k < (Packet.parts (msg i)).length, (i, k) ∉ left)
      then none else some (Packet.slots (msg i) fun k => (i, k) ∈ left)
  exists_of_lookup : ∀ {id parts}, c.packets.lookup id = some parts →
    ∃ i, webrtcMaxSize < (msg i).utf8ByteSize ∧ rnd i = id

namespace Pending

theorem empty (rnd : Fin n → U256) {left : List (Fin n × Nat)} (h : positions msg ⊆ left) :
    Pending rnd msg {} left where
  lookup_eq i _ :=
    (if_pos <| .inl fun _ hk => h <| mem_positions.mpr hk).symm
  exists_of_lookup h := by cases h

variable {c : PacketCollector} {left : List (Fin n × Nat)}

-- Nothing is held when all has arrived.
theorem packets_eq_empty (h : Pending rnd msg c []) : c.packets = ∅ := by
  refine HashMap.eq_empty fun id => ?_
  cases hl : c.packets.lookup id
  case none => rfl
  case some parts =>
    obtain ⟨i, hi, rfl⟩ := h.exists_of_lookup hl
    rw [h.lookup_eq i hi, if_pos <| .inr fun _ _ => List.not_mem_nil] at hl
    cases hl

variable {i : Fin n} {k : Nat} {data : String}

-- The slots of a message before one of its packets comes in.
theorem getD_lookup (h : Pending rnd msg c ((i, k) :: left))
    (hi : webrtcMaxSize < (msg i).utf8ByteSize) (hk : k < (Packet.parts (msg i)).length) :
    (c.packets.lookup (rnd i)).getD (List.replicate (Packet.parts (msg i)).length none) =
      Packet.slots (msg i) fun j => (i, j) ∈ (i, k) :: left := by
  rw [h.lookup_eq i hi]
  split
  case isFalse => rfl
  case isTrue ha =>
    rcases ha with ha | ha
    case inl => exact (Packet.slots_of_all ha).symm
    case inr => exact absurd List.mem_cons_self (ha k hk)

-- Only what is held for the message of the packet can become full.
theorem not_full (h : Pending rnd msg c left) {id : U256} {parts : List (Option String)}
    (hl : c.packets.lookup id = some parts) : ¬ parts.all Option.isSome := by
  obtain ⟨i, hi, rfl⟩ := h.exists_of_lookup hl
  rw [h.lookup_eq i hi] at hl
  split at hl
  case isTrue => cases hl
  case isFalse ha =>
    cases hl
    exact fun hs => ha <| .inr <| Packet.all_slots.mp hs

-- The slots of the message of the packet after it has come in.
abbrev filled (msg : Fin n → String) (i : Fin n) (left : List (Fin n × Nat)) :=
  Packet.slots (msg i) fun j => (i, j) ∈ left

theorem takePacket_eq (rehash : Rehash) (h : Pending rnd msg c ((i, k) :: left))
    (hi : webrtcMaxSize < (msg i).utf8ByteSize) (hk : (Packet.parts (msg i))[k]? = some data)
    (hn : (i, k) ∉ left) :
    c.takePacket rehash (.numbered (rnd i) (msg i) k data) =
      let packets := (rehash <| c.packets.insert (rnd i) (filled msg i left)).1
      if ∀ j < (Packet.parts (msg i)).length, (i, j) ∉ left then
        ({ packets := packets.erase (rnd i) }, some (msg i))
      else ({ packets }, none) := by
  have hlt := (List.getElem?_eq_some_iff.mp hk).1
  have hs : (Packet.slots (msg i) fun j => (i, j) ∈ (i, k) :: left).set k (some data) =
      filled msg i left :=
    Packet.set_slots hk hn fun j hj => by simp [hj]
  have hf : ∀ id parts, (rehash <| c.packets.insert (rnd i) (filled msg i left)).1.lookup id =
      some parts → parts.all Option.isSome → id = rnd i := by
    intro id parts hl ha
    by_contra hne
    rw [HashMap.lookup_rehash, HashMap.lookup_insert_of_ne hne] at hl
    exact h.not_full hl ha
  have hl : (rehash <| c.packets.insert (rnd i) (filled msg i left)).1.lookup (rnd i) =
      some (filled msg i left) := by
    rw [HashMap.lookup_rehash, AList.lookup_insert]
  have hp := HashMap.find?_pairs hf
  simp only [hl, Option.any_some] at hp
  unfold takePacket
  simp only [Packet.numbered, Packet.getParams, Option.pure_def, Option.bind_eq_bind,
    Option.bind_some]
  rw [h.getD_lookup hi hlt, hs, hp]
  by_cases ha : ∀ j < (Packet.parts (msg i)).length, (i, j) ∉ left
  case pos =>
    simp only [Packet.all_slots.mpr ha, if_pos ha, if_true, hl, Option.map_some,
      Packet.reduceOption_slots ha, Packet.join_parts]
  case neg =>
    simp only [mt Packet.all_slots.mp ha, if_neg ha, Bool.false_eq_true, if_false]

-- A packet of another message changes nothing for a message.
theorem left_iff {j : Fin n} (hj : j ≠ i) (m : Nat) : (j, m) ∈ (i, k) :: left ↔ (j, m) ∈ left := by
  simp [hj]

theorem expected_of_ne {j : Fin n} (hj : j ≠ i) (h : Pending rnd msg c ((i, k) :: left))
    (hl : webrtcMaxSize < (msg j).utf8ByteSize) :
    c.packets.lookup (rnd j) =
      if (∀ m < (Packet.parts (msg j)).length, (j, m) ∈ left) ∨
        (∀ m < (Packet.parts (msg j)).length, (j, m) ∉ left)
      then none else some (filled msg j left) := by
  have he := h.lookup_eq j hl
  simp only [left_iff hj] at he
  exact he

-- A message of a single packet is never held.
theorem of_single {j : Fin n} (h : (Packet.parts (msg j)).length ≤ 1)
    (left : List (Fin n × Nat)) :
    (∀ m < (Packet.parts (msg j)).length, (j, m) ∈ left) ∨
      ∀ m < (Packet.parts (msg j)).length, (j, m) ∉ left := by
  by_cases hz : (j, 0) ∈ left
  case pos =>
    left
    intro m hm
    rwa [show m = 0 by omega]
  case neg =>
    right
    intro m hm
    rwa [show m = 0 by omega]

-- A message of a single, small packet changes nothing.
theorem small (h : Pending rnd msg c ((i, k) :: left))
    (hi : (msg i).utf8ByteSize ≤ webrtcMaxSize) : Pending rnd msg c left where
  lookup_eq j hj         := h.expected_of_ne (by rintro rfl; exact hj.not_ge hi) hj
  exists_of_lookup hl    := h.exists_of_lookup hl

theorem complete (rehash : Rehash) (hd : Distinct rnd msg) (h : Pending rnd msg c ((i, k) :: left))
    (hi : webrtcMaxSize < (msg i).utf8ByteSize)
    (ha : ∀ j < (Packet.parts (msg i)).length, (i, j) ∉ left) :
    let packets := (rehash <| c.packets.insert (rnd i) (filled msg i left)).1
    Pending rnd msg { packets := packets.erase (rnd i) } left where
  lookup_eq j hj := by
    rw [HashMap.lookup_erase_eq, HashMap.lookup_rehash]
    by_cases hji : j = i
    case pos =>
      subst hji
      rw [if_pos rfl, if_pos <| .inr ha]
    case neg =>
      split
      case isTrue he =>
        have hs : (Packet.parts (msg j)).length ≤ 1 := by
          by_contra hm
          refine hd j i hji ?_ hi he
          rwa [Packet.length_packets, ← not_le]
        rw [if_pos <| of_single hs left]
      case isFalse he =>
        rw [HashMap.lookup_insert_of_ne he]
        exact h.expected_of_ne hji hj
  exists_of_lookup {id parts} hl := by
    rw [HashMap.lookup_erase_eq, HashMap.lookup_rehash] at hl
    split at hl
    case isTrue => cases hl
    case isFalse he =>
      rw [HashMap.lookup_insert_of_ne he] at hl
      exact h.exists_of_lookup hl

theorem incomplete (rehash : Rehash) (hd : Distinct rnd msg)
    (h : Pending rnd msg c ((i, k) :: left)) (hi : webrtcMaxSize < (msg i).utf8ByteSize)
    (hk : k < (Packet.parts (msg i)).length) (hn : (i, k) ∉ left)
    (ha : ¬ ∀ j < (Packet.parts (msg i)).length, (i, j) ∉ left) :
    let packets := (rehash <| c.packets.insert (rnd i) (filled msg i left)).1
    Pending rnd msg { packets } left where
  lookup_eq j hj := by
    have hs : ¬ ((∀ m < (Packet.parts (msg i)).length, (i, m) ∈ left) ∨
        ∀ m < (Packet.parts (msg i)).length, (i, m) ∉ left) :=
      fun hs => hs.elim (fun hs => hn <| hs k hk) ha
    rw [HashMap.lookup_rehash, HashMap.lookup_insert_eq]
    by_cases hji : j = i
    case pos =>
      subst hji
      rw [if_pos rfl, if_neg hs]
    case neg =>
      split
      case isFalse he => exact h.expected_of_ne hji hj
      case isTrue he =>
        refine absurd he.symm <| hd i j (Ne.symm hji) ?_ hj
        rw [Packet.length_packets]
        by_contra hm
        exact hs <| of_single (by omega) left
  exists_of_lookup {id parts} hl := by
    rw [HashMap.lookup_rehash, HashMap.lookup_insert_eq] at hl
    split at hl
    case isTrue he  => exact ⟨i, hi, he.symm⟩
    case isFalse he => exact h.exists_of_lookup hl

end Pending

-- Each message is due once.
theorem reduceOption_due (msg : Fin n → String) (is : List (Fin n)) :
    (due msg is).reduceOption = is.dedup.map msg := by
  induction is
  case nil => rfl
  case cons i is hi =>
    unfold due
    split
    case isTrue h  => rw [List.reduceOption_cons_of_none, List.dedup_cons_of_mem h, hi]
    case isFalse h =>
      rw [List.reduceOption_cons_of_some, List.dedup_cons_of_notMem h, List.map_cons, hi]

theorem dedup_positions {order : List (Fin n × Nat)} (h : order.Perm (positions msg)) :
    (order.map Prod.fst).dedup.Perm (List.finRange n) := by
  refine (List.perm_ext_iff_of_nodup (List.nodup_dedup _) (List.nodup_finRange n)).mpr fun i => ?_
  have hm : (i, 0) ∈ order :=
    h.mem_iff.mpr <| mem_positions.mpr <| List.length_pos_of_ne_nil <| Packet.parts_ne_nil _
  simpa using ⟨0, hm⟩

variable [PacketSerde]

-- The text of the packet at a position.
def text (rnd : Fin n → U256) (msg : Fin n → String) (pos : Fin n × Nat) : Fin n × String :=
  (pos.1, (Packet.splitMsg (rnd pos.1) (msg pos.1))[pos.2]?.getD "")

theorem sent_eq (rnd : Fin n → U256) (msg : Fin n → String) :
    sent rnd msg = (positions msg).map (text rnd msg) := by
  rw [sent, positions, List.map_flatMap]
  refine List.flatMap_congr fun i _ => ?_
  rw [List.map_map]
  refine List.ext_getElem? fun k => ?_
  have hl : (Packet.splitMsg (rnd i) (msg i)).length = (Packet.parts (msg i)).length := by
    rw [Packet.splitMsg_eq, List.length_map, Packet.length_packets]
  by_cases hk : k < (Packet.parts (msg i)).length
  case pos => simp [text, hk, hl]
  case neg => simp [hk, hl]

omit [PacketSerde] in
-- Nothing of a message is left if and only if each of its parts has come.
theorem not_mem_left_iff {left : List (Fin n × Nat)} {i : Fin n}
    (hp : ∀ pos ∈ left, pos ∈ positions msg) :
    i ∉ left.map Prod.fst ↔ ∀ j < (Packet.parts (msg i)).length, (i, j) ∉ left := by
  constructor
  case mp  => exact fun hi j _ hj => hi <| List.mem_map_of_mem hj
  case mpr =>
    intro ha hi
    obtain ⟨⟨i, j⟩, hj, rfl⟩ := List.mem_map.mp hi
    exact ha j (mem_positions.mp <| hp _ hj) hj

namespace Pending

variable {c : PacketCollector} {left : List (Fin n × Nat)} {i : Fin n} {k : Nat}

theorem takePacketStr (rehash : Rehash) (hd : Distinct rnd msg) (hr : Readable rnd msg)
    (hp : ∀ pos ∈ left, pos ∈ positions msg) (hk : (i, k) ∈ positions msg) (hn : (i, k) ∉ left)
    (h : Pending rnd msg c ((i, k) :: left)) :
    ∃ c', c.takePacketStr rehash (text rnd msg (i, k)).2 =
      (c', if i ∈ left.map Prod.fst then none else some (msg i)) ∧ Pending rnd msg c' left := by
  have hlt := mem_positions.mp hk
  have hlast := not_mem_left_iff (i := i) hp
  have hkp : k < (Packet.packets (rnd i) (msg i)).length := by rwa [Packet.length_packets]
  obtain ⟨p, hpk⟩ : ∃ p, (Packet.packets (rnd i) (msg i))[k]? = some p :=
    ⟨_, List.getElem?_eq_getElem hkp⟩
  have ht : (text rnd msg (i, k)).2 = PacketSerde.toString p := by
    simp [text, Packet.splitMsg_eq, hpk]
  have hread := hr i p (List.mem_of_getElem? hpk)
  simp only [PacketCollector.takePacketStr, ht, hread]
  rcases Nat.lt_or_ge webrtcMaxSize (msg i).utf8ByteSize with hi | hi
  case inr =>
    have hk0 : k = 0 := by
      rw [Packet.parts_of_le hi, List.length_singleton] at hlt
      omega
    subst hk0
    rw [Packet.packets_of_le hi] at hpk
    cases hpk
    refine ⟨c, ?_, h.small hi⟩
    rw [if_neg <| hlast.mpr fun j hj => ?_]
    case _ => rfl
    case _ =>
      rw [Packet.parts_of_le hi, List.length_singleton] at hj
      rwa [show j = 0 by omega]
  case inl =>
    rw [Packet.getElem?_packets hi, Option.map_eq_some_iff] at hpk
    obtain ⟨data, hdata, rfl⟩ := hpk
    rw [h.takePacket_eq rehash hi hdata hn]
    by_cases ha : ∀ j < (Packet.parts (msg i)).length, (i, j) ∉ left
    case pos =>
      rw [if_neg <| hlast.mpr ha]
      exact ⟨_, if_pos ha, h.complete rehash hd hi ha⟩
    case neg =>
      rw [if_pos <| not_not.mp <| mt hlast.mp ha]
      exact ⟨_, if_neg ha, h.incomplete rehash hd hi hlt hn ha⟩

theorem collect {feed : List (Rehash × String)} (hd : Distinct rnd msg) (hr : Readable rnd msg)
    (hp : ∀ pos ∈ left, pos ∈ positions msg) (hn : left.Nodup) (h : Pending rnd msg c left)
    (hf : feed.map Prod.snd = left.map fun pos => (text rnd msg pos).2) :
    (c.collect feed).2 = due msg (left.map Prod.fst) ∧ (c.collect feed).1.packets = ∅ := by
  induction left generalizing c feed
  case nil =>
    cases List.map_eq_nil_iff.mp hf
    exact ⟨rfl, h.packets_eq_empty⟩
  case cons pos left hi =>
    obtain ⟨i, k⟩ := pos
    obtain ⟨⟨rehash, s⟩, feed, rfl, rfl, hfeed⟩ := List.map_eq_cons_iff.mp hf
    have ⟨hk, hp⟩ := List.forall_mem_cons.mp hp
    have ⟨hni, hn⟩ := List.nodup_cons.mp hn
    obtain ⟨c', hc, h⟩ := h.takePacketStr rehash hd hr hp hk hni
    have ⟨ho, he⟩ := hi hp hn h hfeed
    simp only [PacketCollector.collect, hc, List.map_cons, due]
    exact ⟨congrArg _ ho, he⟩

end Pending

theorem reassembles (rnd : Fin n → U256) (msg : Fin n → String) (hd : Distinct rnd msg)
    (hr : Readable rnd msg) (feed : List (Rehash × Fin n × String))
    (hf : (feed.map Prod.snd).Perm (sent rnd msg)) :
    let run := collect {} (feed.map fun f => (f.1, f.2.2))
    run.2 = due msg (feed.map fun f => f.2.1) ∧
      run.2.reduceOption.Perm ((List.finRange n).map msg) ∧ run.1.packets = ∅ := by
  intro run
  rw [sent_eq] at hf
  obtain ⟨order, ho, he⟩ := hf.exists_map
  have hp : ∀ pos ∈ order, pos ∈ positions msg := fun _ => ho.mem_iff.mp
  have hn : order.Nodup := ho.nodup_iff.mpr <| nodup_positions msg
  have hs : (feed.map fun f => (f.1, f.2.2)).map Prod.snd =
      order.map fun pos => (text rnd msg pos).2 := by
    have h2 := congrArg (List.map Prod.snd) he
    simpa [List.map_map, Function.comp_def] using h2.symm
  have hl : (feed.map fun f => f.2.1) = order.map Prod.fst := by
    have h1 := congrArg (List.map Prod.fst) he
    simpa [List.map_map, Function.comp_def, text] using h1.symm
  have ⟨hdue, hc⟩ := (Pending.empty rnd fun _ => ho.mem_iff.mpr).collect hd hr hp hn hs
  refine ⟨hl ▸ hdue, ?_, hc⟩
  rw [show run.2 = _ from hdue, reduceOption_due]
  exact (dedup_positions ho).map msg

end PacketCollector

namespace Packet

-- JSON, for a text in which nothing has to be escaped.
def json (p : Packet) : String :=
  let id    := p.id.elim "" fun id =>
    "\"id\":\"" ++ String.ofList ((hex id.bytes).map fun b => Char.ofNat b.toNat) ++ "\","
  let part  := p.part.elim "" fun part => "\"part\":" ++ part.repr ++ ","
  let total := p.total.elim "" fun total => "\"total\":" ++ total.repr ++ ","
  "\x7b" ++ id ++ part ++ total ++ "\"data\":\"" ++ p.data ++ "\"\x7d"

theorem repr_append_inj {k j : Nat} {cs ds : List Char}
    (h : k.repr.toList ++ ',' :: cs = j.repr.toList ++ ',' :: ds) : k = j := by
  have ht : ∀ (n : Nat) (cs : List Char), (n.repr.toList ++ ',' :: cs).takeWhile (· ≠ ',') =
      Nat.toDigits 10 n := by
    intro n cs
    rw [Nat.toList_repr, List.takeWhile_append_of_pos]
    case _ => simp
    case _ =>
      intro c hc
      have hd := Nat.isDigit_of_mem_toDigits (by omega) (by omega) hc
      refine decide_eq_true fun he => ?_
      cases he
      cases hd
  have hr := congrArg (List.takeWhile (· ≠ ',')) h
  rw [ht, ht] at hr
  simpa using congrArg (Nat.ofDigitChars 10 · 0) hr

theorem hex_text_inj {as bs : Bytes}
    (h : (hex as).map (fun b => Char.ofNat b.toNat) = (hex bs).map fun b => Char.ofNat b.toNat) :
    as = bs := by
  refine hex_inj <| List.map_injective_iff.mpr ?_ h
  have hc : ∀ n < 256, (Char.ofNat n).toNat = n := by decide +kernel
  intro a b hab
  have ht := congrArg Char.toNat hab
  rw [hc _ a.toNat_lt, hc _ b.toNat_lt] at ht
  exact UInt8.toNat_inj.mp ht

theorem json_numbered_inj {u v : U256} {m m' d d' : String} {k j : Nat}
    (h : json (numbered u m k d) = json (numbered v m' j d')) : u = v ∧ k = j := by
  have hl := String.toList_inj.mpr h
  simp only [json, numbered, Option.elim_some, String.toList_append, List.append_assoc,
    String.toList_ofList, List.append_cancel_left_eq] at hl
  obtain ⟨hu, hl⟩ := List.append_inj hl (by simp [hex_length, u.length_bytes, v.length_bytes])
  rw [List.append_cancel_left_eq, List.append_cancel_left_eq] at hl
  exact ⟨U256.ext <| hex_text_inj hu, repr_append_inj hl⟩

end Packet

-- Reads the given packets.
abbrev PacketSerde.reading (ps : List Packet) : PacketSerde where
  toString  := Packet.json
  fromStr s := ps.find? (·.json = s)

namespace PacketCollector

-- Two messages which do not fit into one packet.
def longMessages (i : Fin 2) : String :=
  String.ofList <| List.replicate (webrtcMaxSize + 1 + i.val) 'a'

def longIds (i : Fin 2) : U256 :=
  .ofPrefix [UInt8.ofNat i.val]

def longPackets : List Packet :=
  (List.finRange 2).flatMap fun i => Packet.packets (longIds i) (longMessages i)

abbrev longSerde : PacketSerde :=
  .reading longPackets

attribute [local instance] longSerde

-- The packets of both messages in the opposite order.
def longFeed : List (Rehash × Fin 2 × String) :=
  (sent longIds longMessages).reverse.map fun s => (.same, s)

theorem utf8ByteSize_replicate (n : Nat) :
    (String.ofList <| List.replicate n 'a').utf8ByteSize = n := by
  rw [String.utf8ByteSize_ofList_eq_sum, List.map_replicate, List.sum_replicate_nat]
  exact Nat.mul_one n

theorem long_longMessages (i : Fin 2) : webrtcMaxSize < (longMessages i).utf8ByteSize := by
  rw [longMessages, utf8ByteSize_replicate]
  omega

theorem longIds_inj {i j : Fin 2} (h : longIds i = longIds j) : i = j := by
  revert i j
  decide

theorem readable_long : Readable longIds longMessages := by
  intro i p hp
  have hm : p ∈ longPackets := List.mem_flatMap.mpr ⟨i, List.mem_finRange i, hp⟩
  change longPackets.find? (·.json = p.json) = some p
  have hs : (longPackets.find? (·.json = p.json)).isSome :=
    List.find?_isSome.mpr ⟨p, hm, decide_eq_true rfl⟩
  obtain ⟨q, hq⟩ := Option.isSome_iff_exists.mp hs
  have he : q.json = p.json := by simpa using List.find?_some hq
  obtain ⟨j, _, hqj⟩ := List.mem_flatMap.mp <| List.mem_of_find?_eq_some hq
  obtain ⟨k, hk⟩ := List.getElem?_of_mem hp
  obtain ⟨m, hqm⟩ := List.getElem?_of_mem hqj
  rw [Packet.getElem?_packets (long_longMessages _), Option.map_eq_some_iff] at hk hqm
  obtain ⟨d, hd, rfl⟩ := hk
  obtain ⟨e, hqe, rfl⟩ := hqm
  obtain ⟨hij, rfl⟩ := Packet.json_numbered_inj he
  cases longIds_inj hij
  cases hd.symm.trans hqe
  exact hq

theorem reassembles_reversed :
    (longFeed.map Prod.snd).Perm (sent longIds longMessages) ∧
      let run := collect {} (longFeed.map fun f => (f.1, f.2.2))
      run.2 = due longMessages (longFeed.map fun f => f.2.1) ∧
        run.2.reduceOption.Perm ((List.finRange 2).map longMessages) ∧ run.1.packets = ∅ := by
  have hf : (longFeed.map Prod.snd).Perm (sent longIds longMessages) := by
    rw [longFeed, List.map_map]
    exact (List.map_id _).symm ▸ List.reverse_perm _
  exact ⟨hf, reassembles longIds longMessages (fun i j hij _ _ he => hij <| longIds_inj he)
    readable_long longFeed hf⟩

end PacketCollector
