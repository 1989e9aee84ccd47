import Fledger.Arch.Packets

namespace Packet

variable {rnd : U256} {msg : String}

-- The characters of a message which are cut into full packets.
def full (msg : String) : Nat :=
  msg.toList.length / webrtcMaxSize * webrtcMaxSize

-- Characters take one byte wherever the packets are full, and the remaining ones fit into the last
-- packet.
def Fits (msg : String) : Prop :=
  msg.utf8ByteSize ≤ webrtcMaxSize ∨
    (∀ c ∈ msg.toList.take (full msg), c.val ≤ 127) ∧
      (String.ofList <| msg.toList.drop (full msg)).utf8ByteSize ≤ webrtcMaxSize

-- What is asked of the packets of a message.
structure Transportable (rnd : U256) (msg : String) : Prop where
  size_le   : ∀ p ∈ packets rnd msg, p.data.utf8ByteSize ≤ webrtcMaxSize
  join_data : String.join ((packets rnd msg).map data) = msg

theorem map_data_packets (rnd : U256) (msg : String) :
    (packets rnd msg).map data = parts msg := by
  unfold packets parts
  split
  case isTrue  => rfl
  case isFalse => simp [List.map_map, Function.comp_def]

theorem forall_chunks_iff :
    (∀ data ∈ chunks msg, data.utf8ByteSize ≤ webrtcMaxSize) ↔
      (∀ c ∈ msg.toList.take (full msg), c.val ≤ 127) ∧
        (String.ofList <| msg.toList.drop (full msg)).utf8ByteSize ≤ webrtcMaxSize := by
  simp only [chunks, List.forall_mem_map, String.utf8ByteSize_ofList_eq_sum,
    ← Char.utf8Size_eq_one_iff]
  exact List.forall_toChunks_sum_le_iff (by decide) Char.utf8Size_pos

theorem transportable_iff_fits : Transportable rnd msg ↔ Fits msg := by
  have hp : Transportable rnd msg ↔
      ∀ data ∈ parts msg, data.utf8ByteSize ≤ webrtcMaxSize := by
    rw [← map_data_packets rnd, List.forall_mem_map]
    refine ⟨Transportable.size_le, fun h => ⟨h, ?_⟩⟩
    rw [map_data_packets, join_parts]
  rw [hp, Fits, ← forall_chunks_iff]
  unfold parts
  split
  case isTrue h  => simp [h]
  case isFalse h => simp [h]

-- Texts of ASCII characters never exceed the limit.
theorem fits_of_ascii (h : ∀ c ∈ msg.toList, c.val ≤ 127) : Fits msg := by
  refine .inr ⟨fun c hc => h c <| List.mem_of_mem_take hc, ?_⟩
  have hs : ∀ c ∈ msg.toList.drop (full msg), c.utf8Size = 1 :=
    fun c hc => Char.utf8Size_eq_one_iff.mpr <| h c <| List.mem_of_mem_drop hc
  have hl := (List.sum_le_length_iff Char.utf8Size_pos).mpr hs
  rw [String.utf8ByteSize_ofList_eq_sum]
  refine hl.trans ?_
  rw [List.length_drop, full, Nat.mul_comm, ← Nat.mod_eq_sub]
  exact (Nat.mod_lt _ (by decide)).le

-- Nothing is ever lost, but a message which does not fit has a packet above the limit.
theorem splitMsg_transportable_iff [PacketSerde] (rnd : U256) (msg : String) :
    splitMsg rnd msg = (packets rnd msg).map PacketSerde.toString ∧
      String.join ((packets rnd msg).map data) = msg ∧ (Transportable rnd msg ↔ Fits msg) :=
  ⟨splitMsg_eq rnd msg, by rw [map_data_packets, join_parts], transportable_iff_fits⟩

-- A text of one packet with two bytes for each character.
def accented : String :=
  String.ofList <| List.replicate webrtcMaxSize 'é'

theorem not_transportable_accented : ¬ Transportable (.ofPrefix []) accented := by
  have hl : accented.toList = List.replicate webrtcMaxSize 'é' := by
    rw [accented, String.toList_ofList]
  have hf : full accented = webrtcMaxSize := by
    rw [full, hl, List.length_replicate]
    rfl
  have hs : accented.utf8ByteSize = webrtcMaxSize * 2 := by
    rw [accented, String.utf8ByteSize_ofList_eq_sum, List.map_replicate,
      List.sum_replicate_nat]
    rfl
  rw [transportable_iff_fits]
  rintro (h | ⟨h, _⟩)
  case inl =>
    rw [hs] at h
    exact absurd h (by decide)
  case inr =>
    rw [hf, hl, List.take_replicate, Nat.min_self] at h
    exact absurd (h 'é' <| List.mem_replicate.mpr ⟨by decide, rfl⟩) (by decide)

end Packet
