import Fledger.Arch.Framing
import Fledger.Lib.Reorder

-- Values with hash maps in them, of which `==` does not see the order, while `to_rmp_bytes` does.
class Unordered (α : Type) [Serialize α] where
  Same        : α → α → Prop
  -- There is no other order in which anything in the value could be iterated.
  Settled     : α → Prop
  same_refl   : ∀ a, Same a a
  settled_iff : ∀ {a}, Settled a ↔ ∀ b, Same a b → Serialize.toValue b = Serialize.toValue a

namespace Unordered

variable {α : Type} [Serialize α]

-- There is no hash map in the value.
abbrev plain : Unordered α where
  Same          := Eq
  Settled _     := True
  same_refl _   := rfl
  settled_iff   := ⟨fun _ _ h => h ▸ rfl, fun _ => trivial⟩

instance : Unordered U256 :=
  plain

instance : Unordered String :=
  plain

theorem forall₂_refl [Unordered α] (as : List α) : List.Forall₂ Same as as :=
  List.forall₂_same.mpr fun a _ => same_refl a

theorem settled_list_iff [Unordered α] {as : List α} : (∀ a ∈ as, Settled a) ↔
    ∀ bs, List.Forall₂ Same as bs → bs.map Serialize.toValue = as.map Serialize.toValue := by
  induction as
  case nil          => simp
  case cons a as hi =>
    rw [List.forall_mem_cons, hi, settled_iff]
    constructor
    case mp  =>
      intro ⟨ha, h⟩ bs hb
      cases hb
      case cons hs hb => rw [List.map_cons, List.map_cons, ha _ hs, h _ hb]
    case mpr =>
      intro h
      constructor
      case left  =>
        intro b hb
        exact List.head_eq_of_cons_eq <| h _ (.cons hb (forall₂_refl as))
      case right =>
        intro bs hb
        exact List.tail_eq_of_cons_eq <| h _ (.cons (same_refl a) hb)

instance [Unordered α] : Unordered (List α) where
  Same            := List.Forall₂ Same
  Settled as      := ∀ a ∈ as, Settled a
  same_refl       := forall₂_refl
  settled_iff     := by
    intro as
    simp only [Serialize.toValue, MsgPack.Value.arr.injEq]
    exact settled_list_iff

theorem toRmpBytes_eq_iff [Unordered α] {a b : α} (ha : (Serialize.toValue a).Fits)
    (hb : (Serialize.toValue b).Fits) :
    toRmpBytes b = toRmpBytes a ↔ Serialize.toValue b = Serialize.toValue a :=
  ⟨MsgPack.Value.encode_inj hb ha, congrArg MsgPack.Value.encode⟩

end Unordered

namespace U256

variable {K V : Type} [Serialize K] [Serialize V]

def hashmapEntry (e : K × V) : Bytes × Bytes :=
  (toRmpBytes e.1, toRmpBytes e.2)

def hashmapParts (hm : HashMap K V) : List Bytes :=
  hm.pairs.flatMap fun e => [toRmpBytes e.1, toRmpBytes e.2]

variable [Sha256]

def hashDomainHashmap (domain : String) (hm : HashMap K V) : U256 :=
  hashDomainParts domain (hashmapParts hm)

-- All lengths are those of values which can be in memory and can be serialized, and the hash does
-- not collide on what is hashed for the equal maps.
structure HashesMap [DecidableEq K] [Unordered V] (domain : String) (hm : HashMap K V) : Prop where
  name        : (strBytes domain).length < 2 ^ 64
  parts       : ∀ hm', hm.Same Unordered.Same hm' → PartsFit (hashmapParts hm')
  values      : ∀ hm', hm.Same Unordered.Same hm' → ∀ e ∈ hm'.pairs, (Serialize.toValue e.2).Fits
  noCollision : ∀ hm', hm.Same Unordered.Same hm' →
    hashDomainHashmap domain hm' = hashDomainHashmap domain hm →
      domainPartsInput domain (hashmapParts hm') = domainPartsInput domain (hashmapParts hm)

-- There is at most one entry, or all of them are serialized to the same bytes.
structure MapSettled [Unordered V] (hm : HashMap K V) : Prop where
  values  : ∀ e ∈ hm.pairs, Unordered.Settled e.2
  entries : ∀ e ∈ hm.pairs, ∀ e' ∈ hm.pairs, hashmapEntry e = hashmapEntry e'

variable [DecidableEq K] [Unordered V] {domain : String} {hm hm' : HashMap K V}

theorem hashDomainHashmap_eq_iff (h : HashesMap domain hm) (hs : hm.Same Unordered.Same hm') :
    hashDomainHashmap domain hm' = hashDomainHashmap domain hm ↔
      hm'.pairs.map hashmapEntry = hm.pairs.map hashmapEntry := by
  have hp (m : HashMap K V) : hashmapParts m =
      (m.pairs.map hashmapEntry).flatMap fun p => [p.1, p.2] := by
    rw [hashmapParts, List.flatMap_map]
    rfl
  rw [← List.flatMap_pair_inj, ← hp, ← hp]
  constructor
  case mp  =>
    intro he
    have hm := h.parts _ <| HashMap.same_refl Unordered.same_refl hm
    have he := h.noCollision _ hs he
    exact (domainPartsInput_inj h.name h.name (h.parts _ hs) hm he).right
  case mpr => exact fun he => congrArg (hashDomainParts domain) he

theorem settled_values_iff (h : HashesMap domain hm) :
    (∀ e ∈ hm.pairs, ∀ w, Unordered.Same e.2 w → hashmapEntry (e.1, w) = hashmapEntry e) ↔
      ∀ e ∈ hm.pairs, Unordered.Settled e.2 := by
  refine forall₂_congr fun e he => ?_
  rw [Unordered.settled_iff]
  refine forall₂_congr fun w hw => ?_
  have hr := Unordered.same_refl (α := V)
  have hl := HashMap.mem_pairs.mp he
  have hf := h.values _ (HashMap.same_refl hr hm) e he
  have hf' := h.values _ (HashMap.same_replace hr hl hw) (e.1, w) <|
    HashMap.mem_pairs.mpr (HashMap.lookup_replace hl)
  rw [← Unordered.toRmpBytes_eq_iff hf hf', hashmapEntry, hashmapEntry, Prod.mk.injEq]
  exact and_iff_right rfl

-- Equal maps have the same hash exactly if there is only one order of their entries.
theorem forall_hashDomainHashmap_eq_iff (h : HashesMap domain hm) :
    (∀ hm', hm.Same Unordered.Same hm' →
      hashDomainHashmap domain hm' = hashDomainHashmap domain hm) ↔ MapSettled hm := by
  have ha : (∀ hm', hm.Same Unordered.Same hm' →
      hashDomainHashmap domain hm' = hashDomainHashmap domain hm) ↔
        hm.Alike Unordered.Same hashmapEntry := by
    rw [← HashMap.forall_same_iff Unordered.same_refl]
    exact forall₂_congr fun _ hs => hashDomainHashmap_eq_iff h hs
  rw [ha]
  constructor
  case mp  => exact fun h' => ⟨(settled_values_iff h).mp h'.values, h'.entries⟩
  case mpr => exact fun h' => ⟨(settled_values_iff h).mpr h'.values, h'.entries⟩

end U256
