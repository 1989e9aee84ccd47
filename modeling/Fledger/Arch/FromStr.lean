import Fledger.Arch.Nodeids
import Fledger.Lib.First
import Fledger.Lib.Outcome
import Mathlib.Data.Nat.Find

theorem strBytes_append (s t : String) : strBytes (s ++ t) = strBytes s ++ strBytes t := by
  simp [strBytes]

theorem strBytes_join (ss : List String) : strBytes (String.join ss) = ss.flatMap strBytes := by
  induction ss
  case nil => rfl
  case cons s ss hi => rw [String.join_cons, strBytes_append, hi, List.flatMap_cons]

namespace Str

-- `str::is_char_boundary`.
def isCharBoundary (s : Bytes) (i : Nat) : Bool :=
  i = 0 ||
    match s[i]? with
    | some b => b < 0x80 || 0xc0 ≤ b
    | none   => i = s.length

-- `&s[i..j]`, which panics where there is no boundary.
def slice (s : Bytes) (i j : Nat) : Option Bytes :=
  if i ≤ j ∧ isCharBoundary s i ∧ isCharBoundary s j then some <| (s.take j).drop i else none

-- `char::to_digit(16)`.
def toDigit (b : UInt8) : Option Nat :=
  if 0x30 ≤ b ∧ b ≤ 0x39 then some (b.toNat - 0x30)
  else if 0x61 ≤ b ∧ b ≤ 0x66 then some (b.toNat - 0x57)
  else if 0x41 ≤ b ∧ b ≤ 0x46 then some (b.toNat - 0x37)
  else none

end Str

inductive IntErrorKind
  | empty
  | invalidDigit
  | posOverflow
deriving DecidableEq

namespace UInt8

open Str

def pushDigit (n : Nat) (b : UInt8) : Except IntErrorKind Nat :=
  match toDigit b with
  | none   => .error .invalidDigit
  | some d => if 255 < n * 16 + d then .error .posOverflow else .ok (n * 16 + d)

-- `u8::from_str_radix` for the radix 16: a plus sign may precede the digits.
def fromStrRadix (src : Bytes) : Except IntErrorKind UInt8 :=
  match src with
  | []      => .error .empty
  | b :: bs =>
    if bs = [] ∧ (b = 0x2b ∨ b = 0x2d) then .error .invalidDigit
    else UInt8.ofNat <$> (if b = 0x2b then bs else b :: bs).foldlM pushDigit 0

end UInt8

namespace U256

open Str

inductive ParseError
  | hexTooLong
  | parseInt (kind : IntErrorKind)
deriving DecidableEq

inductive Failure
  | error (e : ParseError)
  | panic
deriving DecidableEq

def parsePair (s : Bytes) (i : Nat) : Except Failure UInt8 :=
  match slice s i (i + 2) with
  | none     => .error .panic
  | some src => (UInt8.fromStrRadix src).mapError fun kind => .error (.parseInt kind)

-- `(0..s.len()).step_by(2)`.
def pairs (s : Bytes) : List Nat :=
  List.range' 0 ((s.length + 1) / 2) 2

-- The bytes which are missing stay zero, and a byte too many would be out of bounds.
def fromStr (s : String) : Except Failure U256 := do
  let s := strBytes s
  if 64 < s.length then
    throw (.error .hexTooLong)
  let v ← (pairs s).mapM (parsePair s)
  if 32 < v.length then
    throw .panic
  return ofPrefix v

-- `format!("{:02x}")`.
def lowerHex (b : UInt8) : String :=
  String.ofList <| (Nat.toDigits 16 b.toNat).leftpad 2 '0'

-- What `Display` writes.
def toString (u : U256) : String :=
  String.join <| (List.range 32).map fun index => lowerHex (u.bytes.getD index 0)

end U256

namespace Str

variable {s : Bytes} {i : Nat} {b : UInt8}

theorem le_of_isCharBoundary (h : isCharBoundary s i) : i ≤ s.length := by
  by_contra hl
  have hn : s[i]? = none := List.getElem?_eq_none (by omega)
  simp only [isCharBoundary, hn, Bool.or_eq_true, decide_eq_true_eq] at h
  omega

theorem isCharBoundary_length (s : Bytes) : isCharBoundary s s.length := by
  simp [isCharBoundary]

theorem isCharBoundary_zero (s : Bytes) : isCharBoundary s 0 :=
  rfl

-- No digit is in the middle of a character.
theorem isCharBoundary_of_digit (h : s[i]? = some b) (hb : (toDigit b).isSome) :
    isCharBoundary s i := by
  have hlt : b < 0x80 := by
    simp only [toDigit, UInt8.le_iff_toNat_le] at hb
    rw [UInt8.lt_iff_toNat_lt]
    grind
  simp [isCharBoundary, h, hlt]

theorem toDigit_lt {d : Nat} (h : toDigit b = some d) : d < 16 := by
  simp only [toDigit, UInt8.le_iff_toNat_le] at h
  grind

theorem slice_eq_none {j : Nat} (hi : i ≤ j) :
    slice s i j = none ↔ ¬(isCharBoundary s i ∧ isCharBoundary s j) := by
  simp [slice, hi]

theorem slice_two (hi : isCharBoundary s i) (hj : isCharBoundary s (i + 2)) :
    ∃ a b, s[i]? = some a ∧ s[i + 1]? = some b ∧ slice s i (i + 2) = some [a, b] := by
  have hl := le_of_isCharBoundary hj
  refine ⟨_, _, List.getElem?_eq_getElem (by omega), List.getElem?_eq_getElem (by omega), ?_⟩
  rw [slice, if_pos ⟨by omega, hi, hj⟩, List.drop_take, Nat.add_sub_cancel_left,
    List.drop_eq_getElem_cons (by omega), List.drop_eq_getElem_cons (by omega)]
  rfl

end Str

namespace UInt8

open Str

-- What the first of two characters contributes.
def lead (a : UInt8) : Option Nat :=
  if a = 0x2b then some 0 else toDigit a

theorem lead_of_digit {a : UInt8} (h : (toDigit a).isSome) : lead a = toDigit a := by
  unfold lead
  split
  case isFalse   => rfl
  case isTrue ha => subst ha; cases h

theorem pushDigit_eq {n d : Nat} {b : UInt8} (hn : n < 16) (h : toDigit b = some d) :
    pushDigit n b = .ok (n * 16 + d) := by
  have hd := toDigit_lt h
  rw [pushDigit, h]
  exact if_neg (by omega)

theorem pushDigit_of_none {n : Nat} {b : UInt8} (h : toDigit b = none) :
    pushDigit n b = .error .invalidDigit := by
  rw [pushDigit, h]

theorem fromStrRadix_pair (a b : UInt8) : fromStrRadix [a, b] =
    match lead a, toDigit b with
    | some c, some d => .ok <| UInt8.ofNat (c * 16 + d)
    | _, _           => .error .invalidDigit := by
  rw [fromStrRadix, if_neg (by simp), lead]
  by_cases ha : a = 0x2b
  case pos =>
    rw [if_pos ha, if_pos ha]
    cases hb : toDigit b
    case none   => simp [pushDigit_of_none hb, bind, Except.bind]
    case some d =>
      have hd := pushDigit_eq (show 0 < 16 by decide) hb
      simp [hd]
  case neg =>
    rw [if_neg ha, if_neg ha]
    cases hc : toDigit a
    case none => simp [pushDigit_of_none hc, bind, Except.bind]
    case some c =>
      have hac := pushDigit_eq (show 0 < 16 by decide) hc
      cases hb : toDigit b
      case none   => simp [hac, pushDigit_of_none hb, bind, Except.bind]
      case some d => simp [hac, pushDigit_eq (toDigit_lt hc) hb]

end UInt8

namespace U256

open Str

-- The bytes which hexadecimal digits stand for.
def unhex : Bytes → Bytes
  | a :: b :: s => UInt8.ofNat ((toDigit a).getD 0 * 16 + (toDigit b).getD 0) :: unhex s
  | _           => []

-- The texts of ids, of which the end may be missing.
structure IsHex (s : String) : Prop where
  even      : 2 ∣ (strBytes s).length
  length_le : (strBytes s).length ≤ 64
  digits    : ∀ b ∈ strBytes s, (toDigit b).isSome

-- What is asked of the parser.
structure Parses (s : String) : Prop where
  ne_panic : fromStr s ≠ .error .panic
  ok_iff   : ∀ u, fromStr s = .ok u ↔
    IsHex s ∧ u.bytes = (unhex <| strBytes s).rightpad 32 0

-- A pair of bytes which is not a number for `u8::from_str_radix`. It lies, as the pairs before it,
-- between the boundaries of characters.
structure Refused (s : Bytes) (k : Nat) : Prop where
  boundary : ∀ j ≤ k, isCharBoundary s (2 * j + 2)
  digits   : ¬∃ a b, s[2 * k]? = some a ∧ s[2 * k + 1]? = some b ∧
    (a = 0x2b ∨ (toDigit a).isSome) ∧ (toDigit b).isSome

section Pairs

variable {s : Bytes} {i k : Nat} {a b : UInt8}

-- The pair at a position is a number.
def Accepts (s : Bytes) (i : Nat) : Prop :=
  ∃ a b, s[i]? = some a ∧ s[i + 1]? = some b ∧
    (a = 0x2b ∨ (toDigit a).isSome) ∧ (toDigit b).isSome

def Cut (s : Bytes) (i : Nat) : Prop :=
  isCharBoundary s i ∧ isCharBoundary s (i + 2)

theorem isSome_lead : (UInt8.lead a).isSome ↔ a = 0x2b ∨ (toDigit a).isSome := by
  unfold UInt8.lead
  split
  case isTrue h  => simp [h]
  case isFalse h => simp [h]

theorem parsePair_eq_panic : parsePair s i = .error .panic ↔ ¬Cut s i := by
  rw [Cut, ← slice_eq_none (Nat.le_add_right i 2), parsePair]
  cases slice s i (i + 2)
  case none     => simp
  case some src =>
    dsimp only
    cases UInt8.fromStrRadix src <;> simp [Except.mapError]

theorem parsePair_of_cut (h : Cut s i) : ∃ a b, s[i]? = some a ∧ s[i + 1]? = some b ∧
    parsePair s i = match UInt8.lead a, toDigit b with
      | some c, some d => .ok <| UInt8.ofNat (c * 16 + d)
      | _, _           => .error (.error (.parseInt .invalidDigit)) := by
  obtain ⟨a, b, ha, hb, hs⟩ := slice_two h.left h.right
  refine ⟨a, b, ha, hb, ?_⟩
  rw [parsePair, hs]
  dsimp only
  rw [UInt8.fromStrRadix_pair]
  cases UInt8.lead a <;> cases toDigit b <;> rfl

theorem parsePair_isOk : (∃ v, parsePair s i = .ok v) ↔ Cut s i ∧ Accepts s i := by
  by_cases hc : Cut s i
  case neg => simp [hc, parsePair_eq_panic.mpr hc]
  obtain ⟨a, b, ha, hb, hp⟩ := parsePair_of_cut hc
  have hd : Accepts s i ↔ (UInt8.lead a).isSome ∧ (toDigit b).isSome := by
    rw [isSome_lead]
    simp [Accepts, ha, hb]
  rw [hp, hd]
  cases UInt8.lead a <;> cases toDigit b <;> simp [hc]

theorem parsePair_eq_error {e : ParseError} (h : parsePair s i = .error (.error e)) :
    Cut s i ∧ ¬Accepts s i := by
  have hc : Cut s i := by
    by_contra hc
    rw [parsePair_eq_panic.mpr hc] at h
    cases h
  refine ⟨hc, fun ha => ?_⟩
  obtain ⟨v, hv⟩ := parsePair_isOk.mpr ⟨hc, ha⟩
  rw [hv] at h
  cases h

theorem length_unhex : (s : Bytes) → (unhex s).length = s.length / 2
  | []          => rfl
  | [_]         => by rw [unhex] <;> simp
  | a :: b :: s => by
    rw [unhex, List.length_cons, length_unhex s]
    simp only [List.length_cons]
    omega

theorem getElem?_unhex (ha : s[2 * k]? = some a) (hb : s[2 * k + 1]? = some b) :
    (unhex s)[k]? = some (UInt8.ofNat ((toDigit a).getD 0 * 16 + (toDigit b).getD 0)) := by
  induction k generalizing s
  case zero =>
    match s with
    | a :: b :: s =>
      cases ha
      cases hb
      rfl
  case succ k hi =>
    match s with
    | _ :: _ :: s => exact hi ha hb

-- What is cut out of digits only.
theorem parsePair_of_digits (h : ∀ b ∈ s, (toDigit b).isSome) (hk : 2 * k + 1 < s.length) :
    (unhex s)[k]?.map .ok = some (parsePair s (2 * k)) := by
  have hm : ∀ i < s.length, isCharBoundary s i := fun i hi =>
    isCharBoundary_of_digit (List.getElem?_eq_getElem hi) (h _ <| List.getElem_mem hi)
  have hc : Cut s (2 * k) := by
    refine ⟨hm _ (by omega), ?_⟩
    rcases Nat.lt_or_ge (2 * k + 2) s.length with hl | hl
    case inl => exact hm _ hl
    case inr =>
      rw [show 2 * k + 2 = s.length by omega]
      exact isCharBoundary_length s
  obtain ⟨a, b, ha, hb, hp⟩ := parsePair_of_cut hc
  have hda := h a <| List.mem_of_getElem? ha
  obtain ⟨c, hca⟩ := Option.isSome_iff_exists.mp hda
  obtain ⟨d, hdb⟩ := Option.isSome_iff_exists.mp <| h b <| List.mem_of_getElem? hb
  rw [hp, getElem?_unhex ha hb, UInt8.lead_of_digit hda, hca, hdb]
  rfl

end Pairs

variable {s : String} {k : Nat}

theorem bytes_ofPrefix {bs : Bytes} (h : bs.length ≤ 32) :
    (ofPrefix bs).bytes = bs.rightpad 32 0 := by
  change (bs ++ List.replicate 32 0).take 32 = _
  rw [List.take_append, List.take_of_length_le h, List.take_replicate, List.rightpad,
    Nat.min_eq_left (Nat.sub_le ..)]

theorem pairs_eq (s : Bytes) : pairs s = (List.range ((s.length + 1) / 2)).map (2 * ·) := by
  refine List.ext_getElem (by simp [pairs]) fun k _ _ => ?_
  simp [pairs]

theorem fromStr_of_long (h : 64 < (strBytes s).length) :
    fromStr s = .error (.error .hexTooLong) :=
  if_pos h

theorem fromStr_eq (h : (strBytes s).length ≤ 64) :
    fromStr s = ofPrefix <$> (pairs (strBytes s)).mapM (parsePair (strBytes s)) := by
  have hn : ¬64 < (strBytes s).length := h.not_gt
  simp only [fromStr, if_neg hn]
  cases hm : (pairs (strBytes s)).mapM (parsePair (strBytes s))
  case error => rfl
  case ok v =>
    have hl : v.length ≤ 32 := by
      have hl := congrArg List.length (Outcome.mapM_eq_ok.mp hm)
      simp only [List.length_map, pairs, List.length_range'] at hl
      omega
    have hn : ¬32 < v.length := hl.not_gt
    simp only [Outcome.ok_bind, if_neg hn]
    rfl

theorem fromStr_of_isHex (h : IsHex s) : fromStr s = .ok (ofPrefix (unhex (strBytes s))) := by
  rw [fromStr_eq h.length_le, Outcome.map_eq_ok]
  refine ⟨_, Outcome.mapM_eq_ok.mpr (List.ext_getElem? fun k => ?_), rfl⟩
  have he := h.even
  rw [List.getElem?_map, List.getElem?_map, pairs_eq, List.getElem?_map]
  by_cases hk : 2 * k + 1 < (strBytes s).length
  case pos =>
    rw [List.getElem?_range (by omega), parsePair_of_digits h.digits hk]
    rfl
  case neg =>
    rw [List.getElem?_eq_none (by rw [List.length_range]; omega),
      List.getElem?_eq_none (by rw [length_unhex]; omega)]
    rfl

-- The first pair which is not a number is where the parser stops.
theorem mapM_eq_error (s : Bytes) {e : Failure} : (pairs s).mapM (parsePair s) = .error e ↔
    ∃ k, 2 * k < s.length ∧ parsePair s (2 * k) = .error e ∧
      ∀ j < k, Cut s (2 * j) ∧ Accepts s (2 * j) := by
  rw [Outcome.mapM_eq_error, pairs_eq, First.map_iff, First.range_iff]
  simp only [parsePair_isOk]
  refine exists_congr fun k => and_congr_left fun _ => ?_
  omega

theorem Refused.cut {s : Bytes} (h : Refused s k) {j : Nat} (hj : j ≤ k) : Cut s (2 * j) := by
  refine ⟨?_, h.boundary j hj⟩
  cases j
  case zero   => exact isCharBoundary_zero s
  case succ j => exact h.boundary j (by omega)

theorem Refused.not_isHex (h : Refused (strBytes s) k) : ¬IsHex s := by
  intro hx
  have hl := le_of_isCharBoundary <| h.boundary k le_rfl
  have ha : (strBytes s)[2 * k]? = _ := List.getElem?_eq_getElem (by omega)
  have hb : (strBytes s)[2 * k + 1]? = _ := List.getElem?_eq_getElem (by omega)
  exact h.digits ⟨_, _, ha, hb, .inr <| hx.digits _ <| List.getElem_mem _,
    hx.digits _ <| List.getElem_mem _⟩

theorem mapM_eq_parseError {s : Bytes} :
    (∃ e, (pairs s).mapM (parsePair s) = .error (.error e)) ↔ ∃ k, Refused s k := by
  constructor
  case mp =>
    rintro ⟨e, he⟩
    obtain ⟨k, _, hk, hp⟩ := (mapM_eq_error s).mp he
    obtain ⟨hc, hd⟩ := parsePair_eq_error hk
    refine ⟨k, fun j hj => ?_, hd⟩
    rcases Nat.lt_or_eq_of_le hj with hj | rfl
    case inl => exact (hp j hj).left.right
    case inr => exact hc.right
  case mpr =>
    rintro ⟨k, h⟩
    classical
    have hn : ∃ m, ¬Accepts s (2 * m) := ⟨k, h.digits⟩
    obtain ⟨m, hm, hmin⟩ : ∃ m, ¬Accepts s (2 * m) ∧ ∀ j < m, Accepts s (2 * j) :=
      ⟨Nat.find hn, Nat.find_spec hn, fun _ hj => not_not.mp <| Nat.find_min hn hj⟩
    have hle : m ≤ k := Nat.le_of_not_lt fun hk => h.digits (hmin k hk)
    have hc := h.cut hle
    have hl := le_of_isCharBoundary hc.right
    have hj : ∀ j < m, Cut s (2 * j) ∧ Accepts s (2 * j) := fun j hj =>
      ⟨h.cut (hj.le.trans hle), hmin j hj⟩
    match hp : parsePair s (2 * m) with
    | .ok v             => exact absurd (parsePair_isOk.mp ⟨v, hp⟩).right hm
    | .error .panic     => exact absurd hc (parsePair_eq_panic.mp hp)
    | .error (.error e) => exact ⟨e, (mapM_eq_error s).mpr ⟨m, by omega, hp, hj⟩⟩

theorem parses_of_error {e : ParseError} (h : fromStr s = .error (.error e)) (hx : ¬IsHex s) :
    Parses s where
  ne_panic := by simp [h]
  ok_iff u := by simp [h, hx]

theorem parses_of_isHex (h : IsHex s) : Parses s where
  ne_panic := by simp [fromStr_of_isHex h]
  ok_iff u := by
    have hl : (unhex (strBytes s)).length ≤ 32 := by
      have hl := h.length_le
      rw [length_unhex]
      omega
    rw [fromStr_of_isHex h, ← bytes_ofPrefix hl]
    simp [h, U256.ext_iff, eq_comm]

theorem parses_iff (s : String) : Parses s ↔
    64 < (strBytes s).length ∨ IsHex s ∨ ∃ k, Refused (strBytes s) k := by
  constructor
  case mp =>
    intro h
    by_contra! hn
    obtain ⟨hl, hx, hr⟩ := hn
    have he := fromStr_eq hl
    match hm : (pairs (strBytes s)).mapM (parsePair (strBytes s)) with
    | .ok v =>
      rw [hm] at he
      exact hx ((h.ok_iff _).mp he).left
    | .error .panic =>
      rw [hm] at he
      exact h.ne_panic he
    | .error (.error e) =>
      obtain ⟨k, hk⟩ := mapM_eq_parseError.mp ⟨e, hm⟩
      exact hr k hk
  case mpr =>
    rintro (h | h | ⟨k, h⟩)
    · exact parses_of_error (fromStr_of_long h) fun hx => hx.length_le.not_gt h
    · exact parses_of_isHex h
    · rcases Nat.lt_or_ge 64 (strBytes s).length with hl | hl
      case inl => exact parses_of_error (fromStr_of_long hl) fun hx => hx.length_le.not_gt hl
      case inr =>
        obtain ⟨e, he⟩ := mapM_eq_parseError.mpr ⟨k, h⟩
        refine parses_of_error (e := e) ?_ h.not_isHex
        rw [fromStr_eq hl, he]
        rfl

section Display

theorem strBytes_lowerHex (b : UInt8) :
    strBytes (lowerHex b) = [hexDigit (b.toNat / 16), hexDigit (b.toNat % 16)] := by
  have h : ∀ n < 256, strBytes (lowerHex (UInt8.ofNat n)) =
      [hexDigit (n / 16), hexDigit (n % 16)] := by
    decide +kernel
  have hb := h b.toNat b.toNat_lt
  rwa [UInt8.ofNat_toNat] at hb

theorem strBytes_toString (u : U256) : strBytes u.toString = hex u.bytes := by
  have hu : (List.range 32).map (fun index => u.bytes.getD index 0) = u.bytes := by
    refine List.ext_getElem (by simp [u.length_bytes]) fun k _ hk => ?_
    simp [hk]
  have hl : (List.range 32).map (fun index => lowerHex (u.bytes.getD index 0)) =
      u.bytes.map lowerHex := by
    conv => rhs; rw [← hu, List.map_map]
    rfl
  rw [toString, hl, strBytes_join, List.flatMap_map, hex]
  exact List.flatMap_congr fun b _ => strBytes_lowerHex b

theorem toDigit_hexDigit {n : Nat} (h : n < 16) : toDigit (hexDigit n) = some n := by
  revert n
  decide

theorem unhex_hex (bs : Bytes) : unhex (hex bs) = bs := by
  induction bs
  case nil => rfl
  case cons b bs hi =>
    have hb := b.toNat_lt
    have hh := toDigit_hexDigit (show b.toNat / 16 < 16 by omega)
    have hl := toDigit_hexDigit (show b.toNat % 16 < 16 by omega)
    change unhex (_ :: _ :: hex bs) = _
    rw [unhex, hh, hl, hi, Option.getD_some, Option.getD_some, Nat.mul_comm, Nat.div_add_mod,
      UInt8.ofNat_toNat]

theorem isHex_toString (u : U256) : IsHex u.toString := by
  have hl : (hex u.bytes).length = 64 := by rw [hex_length, u.length_bytes]
  refine ⟨?_, ?_, ?_⟩ <;> rw [strBytes_toString]
  case refine_1 => rw [hl]; decide
  case refine_2 => exact hl.le
  case refine_3 =>
    intro b hb
    obtain ⟨c, _, hc⟩ := List.mem_flatMap.mp hb
    have hlt := c.toNat_lt
    simp only [List.mem_cons, List.not_mem_nil, or_false] at hc
    rcases hc with rfl | rfl
    · rw [toDigit_hexDigit (by omega)]; rfl
    · rw [toDigit_hexDigit (by omega)]; rfl

theorem fromStr_toString (u : U256) : fromStr u.toString = .ok u := by
  refine ((parses_of_isHex <| isHex_toString u).ok_iff u).mpr ⟨isHex_toString u, ?_⟩
  rw [strBytes_toString, unhex_hex, List.rightpad, u.length_bytes]
  simp

end Display

theorem parses_iff_and_toString (s : String) (u : U256) :
    (Parses s ↔ 64 < (strBytes s).length ∨ IsHex s ∨ ∃ k, Refused (strBytes s) k) ∧
      fromStr u.toString = .ok u :=
  ⟨parses_iff s, fromStr_toString u⟩

-- A digit is missing, a sign is taken for one, and a character is cut in two.
theorem not_parses : ¬Parses "1" ∧ ¬Parses "+1" ∧ ¬Parses "a€" := by
  have h : fromStr "1" = .error .panic ∧ fromStr "+1" = .ok (ofPrefix [1]) ∧
      fromStr "a€" = .error .panic := by
    decide +kernel
  refine ⟨fun hp => hp.ne_panic h.left, fun hp => ?_, fun hp => hp.ne_panic h.right.right⟩
  have hx := ((hp.ok_iff _).mp h.right.left).left
  exact absurd (hx.digits 0x2b (by decide)) (by decide)

end U256
