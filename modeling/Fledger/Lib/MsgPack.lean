import Fledger.Lib.Bytes

namespace MsgPack

-- A header of the format: for scalars and strings this is the whole value, for arrays and maps it
-- is only the number of members (pairs) that follow.
inductive Token
  | nil
  | bool (b : Bool)
  | int (i : Int)
  | str (s : Bytes)
  | bin (b : Bytes)
  | arr (n : Nat)
  | map (n : Nat)
deriving DecidableEq

namespace Token

open Bytes

-- Every writer picks the shortest form which holds the number. Lengths are truncated to 32 bits.
def encodeInt (i : Int) : Bytes :=
  if 0 ≤ i then
    let n := i.toNat
    if n < 0x80 then [UInt8.ofNat n]
    else if n < 0x100 then 0xcc :: be 1 n
    else if n < 0x10000 then 0xcd :: be 2 n
    else if n < 0x100000000 then 0xce :: be 4 n
    else 0xcf :: be 8 n
  else if -0x20 ≤ i then [UInt8.ofNat (i + 0x100).toNat]
  else if -0x80 ≤ i then 0xd0 :: be 1 (i + 0x100).toNat
  else if -0x8000 ≤ i then 0xd1 :: be 2 (i + 0x10000).toNat
  else if -0x80000000 ≤ i then 0xd2 :: be 4 (i + 0x100000000).toNat
  else 0xd3 :: be 8 (i + 0x10000000000000000).toNat

def encodeStr (s : Bytes) : Bytes :=
  let n := s.length
  if n < 0x20 then UInt8.ofNat (0xa0 + n) :: s
  else if n < 0x100 then 0xd9 :: be 1 n ++ s
  else if n < 0x10000 then 0xda :: be 2 n ++ s
  else 0xdb :: be 4 n ++ s

def encodeBin (b : Bytes) : Bytes :=
  let n := b.length
  if n < 0x100 then 0xc4 :: be 1 n ++ b
  else if n < 0x10000 then 0xc5 :: be 2 n ++ b
  else 0xc6 :: be 4 n ++ b

def encodeLen (fix marker₂ marker₄ : UInt8) (n : Nat) : Bytes :=
  if n < 0x10 then [fix + UInt8.ofNat n]
  else if n < 0x10000 then marker₂ :: be 2 n
  else marker₄ :: be 4 n

def encode : Token → Bytes
  | nil    => [0xc0]
  | bool b => if b then [0xc3] else [0xc2]
  | int i  => encodeInt i
  | str s  => encodeStr s
  | bin b  => encodeBin b
  | arr n  => encodeLen 0x90 0xdc 0xdd n
  | map n  => encodeLen 0x80 0xde 0xdf n

-- What the format can express without truncation.
def Fits : Token → Prop
  | nil | bool _  => True
  | int i         => -0x8000000000000000 ≤ i ∧ i < 0x10000000000000000
  | str s | bin s => s.length < 0x100000000
  | arr n | map n => n < 0x100000000

instance : (t : Token) → Decidable t.Fits
  | nil | bool _  => inferInstanceAs (Decidable True)
  | int _         => inferInstanceAs (Decidable (_ ∧ _))
  | str _ | bin _ => inferInstanceAs (Decidable (_ < _))
  | arr _ | map _ => inferInstanceAs (Decidable (_ < _))

def decodeStr (r : Option (Nat × Bytes)) : Option (Token × Bytes) := do
  let (n, rest) ← r
  let (s, rest) ← split n rest
  return (str s, rest)

def decodeBin (r : Option (Nat × Bytes)) : Option (Token × Bytes) := do
  let (n, rest) ← r
  let (b, rest) ← split n rest
  return (bin b, rest)

def decodeSint (w : Nat) (bs : Bytes) : Option (Token × Bytes) :=
  (splitBe w bs).map fun (n, rest) => (int (if 2 * n < 256 ^ w then n else n - 256 ^ w), rest)

def decodeWith (f : Nat → Token) (w : Nat) (bs : Bytes) : Option (Token × Bytes) :=
  (splitBe w bs).map fun (n, rest) => (f n, rest)

def decode : Bytes → Option (Token × Bytes)
  | []     => none
  | b :: r =>
    let n := b.toNat
    if n < 0x80 then some (int n, r)
    else if n < 0x90 then some (map (n - 0x80), r)
    else if n < 0xa0 then some (arr (n - 0x90), r)
    else if n < 0xc0 then decodeStr (some (n - 0xa0, r))
    else if 0xe0 ≤ n then some (int (n - 0x100), r)
    else match n with
      | 0xc0 => some (nil, r)
      | 0xc2 => some (bool false, r)
      | 0xc3 => some (bool true, r)
      | 0xc4 => decodeBin (splitBe 1 r)
      | 0xc5 => decodeBin (splitBe 2 r)
      | 0xc6 => decodeBin (splitBe 4 r)
      | 0xcc => decodeWith (int ·) 1 r
      | 0xcd => decodeWith (int ·) 2 r
      | 0xce => decodeWith (int ·) 4 r
      | 0xcf => decodeWith (int ·) 8 r
      | 0xd0 => decodeSint 1 r
      | 0xd1 => decodeSint 2 r
      | 0xd2 => decodeSint 4 r
      | 0xd3 => decodeSint 8 r
      | 0xd9 => decodeStr (splitBe 1 r)
      | 0xda => decodeStr (splitBe 2 r)
      | 0xdb => decodeStr (splitBe 4 r)
      | 0xdc => decodeWith arr 2 r
      | 0xdd => decodeWith arr 4 r
      | 0xde => decodeWith map 2 r
      | 0xdf => decodeWith map 4 r
      | _    => none

section

variable {n w : Nat} {rest : Bytes}

theorem decodeWith_append {f : Nat → Token} (h : n < 256 ^ w) :
    decodeWith f w (be w n ++ rest) = some (f n, rest) := by
  simp [decodeWith, splitBe_append h]

theorem decodeSint_append {i : Int} (hl : -(256 ^ w : Nat) ≤ 2 * i) (hu : i < 0) :
    decodeSint w (be w (i + (256 ^ w : Nat)).toNat ++ rest) = some (int i, rest) := by
  have hw : (i + (256 ^ w : Nat)).toNat < 256 ^ w := by omega
  have hs : ¬(2 * (i + (256 ^ w : Nat)).toNat < 256 ^ w) := by omega
  simp only [decodeSint, splitBe_append hw, Option.map_some, if_neg hs, Option.some.injEq,
    Prod.mk.injEq, int.injEq, and_true]
  rw [Int.toNat_of_nonneg (by omega)]
  push_cast
  ring

theorem decodeStr_append {s : Bytes} (h : s.length < 256 ^ w) :
    decodeStr (splitBe w (be w s.length ++ (s ++ rest))) = some (str s, rest) := by
  simp [decodeStr, splitBe_append h]

theorem decodeBin_append {b : Bytes} (h : b.length < 256 ^ w) :
    decodeBin (splitBe w (be w b.length ++ (b ++ rest))) = some (bin b, rest) := by
  simp [decodeBin, splitBe_append h]

end

theorem decode_encodeInt {i : Int} {rest : Bytes} (h : (int i).Fits) :
    decode (encodeInt i ++ rest) = some (int i, rest) := by
  obtain ⟨hl, hu⟩ := h
  unfold encodeInt
  split
  case isTrue hp =>
    have hi : (i.toNat : Int) = i := Int.toNat_of_nonneg hp
    have hd {w : Nat} (hw : i.toNat < 256 ^ w) :
        decodeWith (int ·) w (be w i.toNat ++ rest) = some (int i, rest) := by
      rw [decodeWith_append hw, hi]
    dsimp only
    split_ifs with h₁ h₂ h₃ h₄
    · have hb : (UInt8.ofNat i.toNat).toNat = i.toNat := by rw [UInt8.toNat_ofNat']; omega
      simp [decode, hb, h₁, hi]
    · exact hd (w := 1) (by omega)
    · exact hd (w := 2) (by omega)
    · exact hd (w := 4) (by omega)
    · exact hd (w := 8) (by omega)
  case isFalse hn =>
    split_ifs with h₁ h₂ h₃ h₄
    · have hb : (UInt8.ofNat (i + 0x100).toNat).toNat = (i + 0x100).toNat := by
        rw [UInt8.toNat_ofNat']; omega
      have hge : 0xe0 ≤ (i + 0x100).toNat := by omega
      simp only [decode, List.cons_append, List.nil_append, hb]
      rw [if_neg (by omega), if_neg (by omega), if_neg (by omega), if_neg (by omega), if_pos hge]
      congr 3
      omega
    · exact decodeSint_append (w := 1) (by omega) (by omega)
    · exact decodeSint_append (w := 2) (by omega) (by omega)
    · exact decodeSint_append (w := 4) (by omega) (by omega)
    · exact decodeSint_append (w := 8) (by omega) (by omega)

theorem decode_encodeStr {s rest : Bytes} (h : (str s).Fits) :
    decode (encodeStr s ++ rest) = some (str s, rest) := by
  change s.length < 0x100000000 at h
  unfold encodeStr
  dsimp only
  split_ifs with h₁ h₂ h₃
  · have hb : (UInt8.ofNat (0xa0 + s.length)).toNat = 0xa0 + s.length := by
      rw [UInt8.toNat_ofNat']; omega
    simp only [decode, List.cons_append, hb]
    rw [if_neg (by omega), if_neg (by omega), if_neg (by omega), if_pos (by omega)]
    simp [decodeStr]
  · rw [List.append_assoc]
    exact decodeStr_append (w := 1) (by omega)
  · rw [List.append_assoc]
    exact decodeStr_append (w := 2) (by omega)
  · rw [List.append_assoc]
    exact decodeStr_append (w := 4) (by omega)

theorem decode_encodeBin {b rest : Bytes} (h : (bin b).Fits) :
    decode (encodeBin b ++ rest) = some (bin b, rest) := by
  change b.length < 0x100000000 at h
  unfold encodeBin
  dsimp only
  split_ifs with h₁ h₂
  · rw [List.append_assoc]
    exact decodeBin_append (w := 1) (by omega)
  · rw [List.append_assoc]
    exact decodeBin_append (w := 2) (by omega)
  · rw [List.append_assoc]
    exact decodeBin_append (w := 4) (by omega)

theorem decode_encodeLen_arr {n : Nat} {rest : Bytes} (h : n < 0x100000000) :
    decode (encodeLen 0x90 0xdc 0xdd n ++ rest) = some (arr n, rest) := by
  unfold encodeLen
  split_ifs with h₁ h₂
  · have hb : (0x90 + UInt8.ofNat n).toNat = 0x90 + n := by
      rw [UInt8.toNat_add, UInt8.toNat_ofNat']
      change (0x90 + n % 256) % 256 = _
      omega
    simp only [decode, List.cons_append, List.nil_append, hb]
    rw [if_neg (by omega), if_neg (by omega), if_pos (by omega)]
    simp
  · exact decodeWith_append (w := 2) (by omega)
  · exact decodeWith_append (w := 4) (by omega)

theorem decode_encodeLen_map {n : Nat} {rest : Bytes} (h : n < 0x100000000) :
    decode (encodeLen 0x80 0xde 0xdf n ++ rest) = some (map n, rest) := by
  unfold encodeLen
  split_ifs with h₁ h₂
  · have hb : (0x80 + UInt8.ofNat n).toNat = 0x80 + n := by
      rw [UInt8.toNat_add, UInt8.toNat_ofNat']
      change (0x80 + n % 256) % 256 = _
      omega
    simp only [decode, List.cons_append, List.nil_append, hb]
    rw [if_neg (by omega), if_pos (by omega)]
    simp
  · exact decodeWith_append (w := 2) (by omega)
  · exact decodeWith_append (w := 4) (by omega)

theorem decode_encode {t : Token} {rest : Bytes} (h : t.Fits) :
    decode (t.encode ++ rest) = some (t, rest) := by
  cases t
  case nil    => rfl
  case bool b => cases b <;> rfl
  case int    => exact decode_encodeInt h
  case str    => exact decode_encodeStr h
  case bin    => exact decode_encodeBin h
  case arr    => exact decode_encodeLen_arr h
  case map    => exact decode_encodeLen_map h

-- No header is a prefix of another one.
theorem encode_append_inj {t₁ t₂ : Token} {r₁ r₂ : Bytes} (h₁ : t₁.Fits) (h₂ : t₂.Fits)
    (h : t₁.encode ++ r₁ = t₂.encode ++ r₂) : t₁ = t₂ ∧ r₁ = r₂ := by
  have hd := congrArg decode h
  rw [decode_encode h₁, decode_encode h₂] at hd
  simpa using hd

theorem length_encodeInt_le (i : Int) : (encodeInt i).length ≤ 9 := by
  unfold encodeInt
  split
  case isTrue  => dsimp only; split_ifs <;> simp
  case isFalse => split_ifs <;> simp

-- The header of an array or a map grows by at most two bytes with one more member.
theorem length_encodeLen_succ_le (fix marker₂ marker₄ : UInt8) (n : Nat) :
    (encodeLen fix marker₂ marker₄ (n + 1)).length ≤
      (encodeLen fix marker₂ marker₄ n).length + 2 := by
  unfold encodeLen
  split_ifs <;> simp only [List.length_cons, List.length_nil, be_length] <;> omega

end Token

inductive Value
  | nil
  | bool (b : Bool)
  | int (i : Int)
  | str (s : Bytes)
  | bin (b : Bytes)
  | arr (vs : List Value)
  | map (kvs : List (Value × Value))

namespace Value

mutual

def encode : Value → Bytes
  | nil     => Token.nil.encode
  | bool b  => (Token.bool b).encode
  | int i   => (Token.int i).encode
  | str s   => (Token.str s).encode
  | bin b   => (Token.bin b).encode
  | arr vs  => (Token.arr vs.length).encode ++ encodeArr vs
  | map kvs => (Token.map kvs.length).encode ++ encodeMap kvs

def encodeArr : List Value → Bytes
  | []      => []
  | v :: vs => v.encode ++ encodeArr vs

def encodeMap : List (Value × Value) → Bytes
  | []            => []
  | (k, v) :: kvs => k.encode ++ v.encode ++ encodeMap kvs

end

mutual

-- Every header of the value fits into the format.
def Fits : Value → Prop
  | nil     => Token.nil.Fits
  | bool b  => (Token.bool b).Fits
  | int i   => (Token.int i).Fits
  | str s   => (Token.str s).Fits
  | bin b   => (Token.bin b).Fits
  | arr vs  => (Token.arr vs.length).Fits ∧ FitsArr vs
  | map kvs => (Token.map kvs.length).Fits ∧ FitsMap kvs

def FitsArr : List Value → Prop
  | []      => True
  | v :: vs => v.Fits ∧ FitsArr vs

def FitsMap : List (Value × Value) → Prop
  | []            => True
  | (k, v) :: kvs => k.Fits ∧ v.Fits ∧ FitsMap kvs

end

mutual

def decidableFits : (v : Value) → Decidable v.Fits
  | nil     => inferInstanceAs (Decidable Token.nil.Fits)
  | bool b  => inferInstanceAs (Decidable (Token.bool b).Fits)
  | int i   => inferInstanceAs (Decidable (Token.int i).Fits)
  | str s   => inferInstanceAs (Decidable (Token.str s).Fits)
  | bin b   => inferInstanceAs (Decidable (Token.bin b).Fits)
  | arr vs  => @instDecidableAnd _ _ _ (decidableFitsArr vs)
  | map kvs => @instDecidableAnd _ _ _ (decidableFitsMap kvs)

def decidableFitsArr : (vs : List Value) → Decidable (FitsArr vs)
  | []      => inferInstanceAs (Decidable True)
  | v :: vs => @instDecidableAnd _ _ (decidableFits v) (decidableFitsArr vs)

def decidableFitsMap : (kvs : List (Value × Value)) → Decidable (FitsMap kvs)
  | []            => inferInstanceAs (Decidable True)
  | (k, v) :: kvs =>
    have := decidableFits k
    have := decidableFits v
    have := decidableFitsMap kvs
    inferInstanceAs (Decidable (_ ∧ _ ∧ _))

end

instance : DecidablePred Fits :=
  decidableFits

def header : Value → Token
  | nil     => .nil
  | bool b  => .bool b
  | int i   => .int i
  | str s   => .str s
  | bin b   => .bin b
  | arr vs  => .arr vs.length
  | map kvs => .map kvs.length

def body : Value → Bytes
  | arr vs  => encodeArr vs
  | map kvs => encodeMap kvs
  | _       => []

theorem encodeArr_append (vs ws : List Value) :
    encodeArr (vs ++ ws) = encodeArr vs ++ encodeArr ws := by
  induction vs
  case nil     => rfl
  case cons hi => simp only [List.cons_append, encodeArr, hi, List.append_assoc]

theorem encode_eq (v : Value) : v.encode = v.header.encode ++ v.body := by
  cases v <;> simp [encode, header, body]

theorem Fits.header {v : Value} (h : v.Fits) : v.header.Fits := by
  cases v <;> simp only [Fits, Value.header] at h ⊢
  case arr | map => exact h.left
  all_goals exact h

theorem header_eq_of_encode_append {v₁ v₂ : Value} {r₁ r₂ : Bytes} (h₁ : v₁.Fits) (h₂ : v₂.Fits)
    (h : v₁.encode ++ r₁ = v₂.encode ++ r₂) :
    v₁.header = v₂.header ∧ v₁.body ++ r₁ = v₂.body ++ r₂ := by
  rw [encode_eq, encode_eq, List.append_assoc, List.append_assoc] at h
  exact Token.encode_append_inj h₁.header h₂.header h

mutual

-- No encoding is a prefix of another one: the header tells how many members follow it.
theorem encode_append_inj {v₁ v₂ : Value} {r₁ r₂ : Bytes} (h₁ : v₁.Fits) (h₂ : v₂.Fits)
    (h : v₁.encode ++ r₁ = v₂.encode ++ r₂) : v₁ = v₂ ∧ r₁ = r₂ := by
  have ⟨hh, hb⟩ := header_eq_of_encode_append h₁ h₂ h
  cases v₁ <;> cases v₂ <;> simp only [header, reduceCtorEq, Token.bool.injEq, Token.int.injEq,
    Token.str.injEq, Token.bin.injEq, Token.arr.injEq, Token.map.injEq] at hh
  case arr.arr =>
    have ⟨hv, hr⟩ := encodeArr_append_inj h₁.right h₂.right hh hb
    exact ⟨hv ▸ rfl, hr⟩
  case map.map =>
    have ⟨hv, hr⟩ := encodeMap_append_inj h₁.right h₂.right hh hb
    exact ⟨hv ▸ rfl, hr⟩
  all_goals
    simp only [body, List.nil_append] at hb
    simp [hb, hh]

theorem encodeArr_append_inj {vs₁ vs₂ : List Value} {r₁ r₂ : Bytes} (h₁ : FitsArr vs₁)
    (h₂ : FitsArr vs₂) (hl : vs₁.length = vs₂.length)
    (h : encodeArr vs₁ ++ r₁ = encodeArr vs₂ ++ r₂) : vs₁ = vs₂ ∧ r₁ = r₂ := by
  cases vs₁ <;> cases vs₂ <;> simp only [List.length_nil, List.length_cons, reduceCtorEq,
    Nat.add_right_cancel_iff] at hl
  case nil.nil => simpa [encodeArr] using h
  case cons.cons =>
    simp only [encodeArr, List.append_assoc] at h
    have ⟨hv, h⟩ := encode_append_inj h₁.left h₂.left h
    have ⟨hvs, hr⟩ := encodeArr_append_inj h₁.right h₂.right hl h
    exact ⟨hv ▸ hvs ▸ rfl, hr⟩

theorem encodeMap_append_inj {kvs₁ kvs₂ : List (Value × Value)} {r₁ r₂ : Bytes}
    (h₁ : FitsMap kvs₁) (h₂ : FitsMap kvs₂) (hl : kvs₁.length = kvs₂.length)
    (h : encodeMap kvs₁ ++ r₁ = encodeMap kvs₂ ++ r₂) : kvs₁ = kvs₂ ∧ r₁ = r₂ := by
  match kvs₁, kvs₂ with
  | [], []                         => simpa [encodeMap] using h
  | (k₁, v₁) :: kvs₁, (k₂, v₂) :: kvs₂ =>
    simp only [encodeMap, List.append_assoc] at h
    have ⟨hk, h⟩ := encode_append_inj h₁.left h₂.left h
    have ⟨hv, h⟩ := encode_append_inj h₁.right.left h₂.right.left h
    have ⟨hkvs, hr⟩ := encodeMap_append_inj h₁.right.right h₂.right.right (by simpa using hl) h
    exact ⟨hk ▸ hv ▸ hkvs ▸ rfl, hr⟩

end

theorem encode_inj {v₁ v₂ : Value} (h₁ : v₁.Fits) (h₂ : v₂.Fits) (h : v₁.encode = v₂.encode) :
    v₁ = v₂ :=
  (@encode_append_inj v₁ v₂ [] [] h₁ h₂ (by simp [h])).left

end Value
end MsgPack
