import Fledger.Lib.MsgPack

@[ext]
structure U256 where
  bytes : Bytes
  length_bytes : bytes.length = 32
deriving DecidableEq

abbrev NodeID := U256

-- The targets the crates are built for.
class inductive Target
  | wasm32
  | native64

-- The width of `usize`.
def usizeBytes [target : Target] : Nat :=
  match target with
  | .wasm32   => 4
  | .native64 => 8

-- `str::as_bytes`.
def strBytes (s : String) : Bytes :=
  s.toByteArray.data.toList

theorem strBytes_inj {s t : String} (h : strBytes s = strBytes t) : s = t :=
  String.toByteArray_inj.mp <| ByteArray.ext <| Array.toList_inj.mp h

-- What the types of the program contribute to `rmp_serde::to_vec`, and with it to `ToFromBytes`.
class Serialize (α : Type*) where
  toValue : α → MsgPack.Value

def toRmpBytes {α : Type*} [Serialize α] (a : α) : Bytes :=
  (Serialize.toValue a).encode

def ToFromBytes.size {α : Type*} [Serialize α] (a : α) : Nat :=
  (toRmpBytes a).length

section Serialize

open MsgPack

-- `serde_with::hex::Hex`: two lower-case digits per byte.
def hexDigit (n : Nat) : UInt8 :=
  UInt8.ofNat (if n < 10 then 0x30 + n else 0x57 + n)

def hex (bs : Bytes) : Bytes :=
  bs.flatMap fun b => [hexDigit (b.toNat / 16), hexDigit (b.toNat % 16)]

-- `base64::prelude::BASE64_STANDARD`.
def base64Digit (n : Nat) : UInt8 :=
  UInt8.ofNat <|
    if n < 26 then 0x41 + n else if n < 52 then 0x47 + n else if n < 62 then n - 4
    else if n = 62 then 0x2b else 0x2f

def base64 : Bytes → Bytes
  | []               => []
  | [a]              =>
    let n := a.toNat * 0x10
    [base64Digit (n / 0x40), base64Digit (n % 0x40), 0x3d, 0x3d]
  | [a, b]           =>
    let n := (a.toNat * 0x100 + b.toNat) * 4
    [base64Digit (n / 0x1000), base64Digit (n / 0x40 % 0x40), base64Digit (n % 0x40), 0x3d]
  | a :: b :: c :: r =>
    let n := (a.toNat * 0x100 + b.toNat) * 0x100 + c.toNat
    base64Digit (n / 0x40000) :: base64Digit (n / 0x1000 % 0x40) ::
      base64Digit (n / 0x40 % 0x40) :: base64Digit (n % 0x40) :: base64 r

-- A unit variant of an enum is its name, any other variant is a map from its name to its contents.
def unitVariant (name : String) : Value :=
  .str (strBytes name)

def variant (name : String) (contents : Value) : Value :=
  .map [(.str (strBytes name), contents)]

instance : Serialize U256 where
  toValue u := .str (hex u.bytes)

instance {α : Type*} [Serialize α] : Serialize (Option α) where
  toValue o := o.elim .nil Serialize.toValue

instance {α : Type*} [Serialize α] : Serialize (List α) where
  toValue as := .arr (as.map Serialize.toValue)

instance : Serialize UInt32 where
  toValue n := .int n.toNat

instance : Serialize String where
  toValue s := .str (strBytes s)

theorem hexDigit_inj {m n : Nat} (hm : m < 16) (hn : n < 16) (h : hexDigit m = hexDigit n) :
    m = n := by
  have h := congrArg UInt8.toNat h
  simp only [hexDigit, UInt8.toNat_ofNat'] at h
  split at h <;> split at h <;> omega

theorem hex_inj {as bs : Bytes} (h : hex as = hex bs) : as = bs := by
  induction as generalizing bs <;> cases bs <;> simp only [hex, List.flatMap_nil,
    List.flatMap_cons, List.cons_append, List.nil_append, reduceCtorEq, List.cons.injEq] at h
  case nil.nil => rfl
  case cons.cons a as hi b bs =>
    have ⟨h₁, h₂, h⟩ := h
    have ha := a.toNat_lt
    have hb := b.toNat_lt
    have h₁ := hexDigit_inj (by omega) (by omega) h₁
    have h₂ := hexDigit_inj (by omega) (by omega) h₂
    have hab : a = b := UInt8.toNat_inj.mp (by omega)
    rw [hab, hi h]

theorem hex_length (bs : Bytes) : (hex bs).length = 2 * bs.length := by
  induction bs
  case nil => rfl
  case cons hi =>
    simp only [hex, List.flatMap_cons, List.length_append, List.length_cons, List.length_nil] at *
    omega

theorem U256.toValue_inj {u v : U256} (h : Serialize.toValue u = Serialize.toValue v) : u = v := by
  simp only [Serialize.toValue, Value.str.injEq] at h
  exact U256.ext <| hex_inj h

theorem ToFromBytes.size_u256 (u : U256) : ToFromBytes.size u = 66 := by
  simp [ToFromBytes.size, toRmpBytes, Serialize.toValue, Value.encode, Token.encode,
    Token.encodeStr, hex_length, u.length_bytes]

-- One more member needs room for itself, and for a longer header.
theorem ToFromBytes.size_concat_le {α : Type*} [Serialize α] (as : List α) (a : α) :
    ToFromBytes.size (as ++ [a]) ≤ ToFromBytes.size as + ToFromBytes.size a + 2 := by
  have hl := Token.length_encodeLen_succ_le 0x90 0xdc 0xdd as.length
  simp only [ToFromBytes.size, toRmpBytes, Serialize.toValue, Value.encode, Token.encode,
    List.map_append, List.map_singleton, Value.encodeArr_append, Value.encodeArr, List.length_append,
    List.length_map, List.length_singleton, List.append_nil]
  omega

end Serialize

-- `to_varint`: the length of `i` in bytes and then `i` without leading zeros.
def toVarint (i : Nat) : Bytes :=
  if i < 0x80 then [UInt8.ofNat i]
  else
    let out := (Bytes.be 8 i).dropWhile (· == 0)
    (UInt8.ofNat out.length ||| 0x80) :: out

-- The hasher input of `U256::hash_data`.
def dataInput (data : Bytes) : Bytes :=
  toVarint data.length ++ data

-- The hasher input of `U256::hash_domain_parts`.
def domainPartsInput (domain : String) (parts : List Bytes) : Bytes :=
  dataInput (strBytes domain) ++ toVarint parts.length ++ parts.flatMap dataInput

-- `Sha256`, from the crate `sha2`.
class Sha256 where
  sha256 : Bytes → U256

namespace U256

variable [Sha256]

def hashData (data : Bytes) : U256 :=
  Sha256.sha256 (dataInput data)

def hashDomainParts (domain : String) (parts : List Bytes) : U256 :=
  Sha256.sha256 (domainPartsInput domain parts)

def zero : U256 where
  bytes := List.replicate 32 0
  length_bytes := by simp

-- The first bytes of the id, filled up with zeros: what `U256::from_str` gives for short strings.
def ofPrefix (bs : Bytes) : U256 where
  bytes := (bs ++ List.replicate 32 0).take 32
  length_bytes := by simp

end U256

-- The operations of `NodeIDs` on the ids in it.
namespace NodeIDs

-- Ids which are already in the list are ignored.
def merge (ids other : List NodeID) : List NodeID :=
  ids ++ other.filter (· ∉ ids)

-- The ids which stay, and those which have been removed.
def remove (ids nodes : List NodeID) (exist : Bool) : List NodeID × List NodeID :=
  (ids.filter fun id => decide (id ∈ nodes) ≠ exist,
    ids.filter fun id => decide (id ∈ nodes) = exist)

def removeMissing (ids nodes : List NodeID) : List NodeID × List NodeID :=
  remove ids nodes false

def removeExisting (ids nodes : List NodeID) : List NodeID × List NodeID :=
  remove ids nodes true

variable {ids other : List NodeID} {id : NodeID}

theorem mem_merge : id ∈ merge ids other ↔ id ∈ ids ∨ id ∈ other := by
  simp only [merge, List.mem_append, List.mem_filter, decide_eq_true_eq]
  by_cases hi : id ∈ ids <;> simp [hi]

theorem nodup_merge :
    (merge ids other).Nodup ↔ ids.Nodup ∧ (other.filter (· ∉ ids)).Nodup := by
  rw [merge, List.nodup_append]
  constructor
  case mp  => exact fun h => ⟨h.left, h.right.left⟩
  case mpr =>
    refine fun h => ⟨h.left, h.right, fun i hi o ho he => ?_⟩
    exact of_decide_eq_true (List.mem_filter.mp ho).right (he ▸ hi)

theorem removeExisting_eq : (removeExisting ids other).1 = ids.filter (· ∉ other) := by
  simp [removeExisting, remove]

end NodeIDs
