import Mathlib.Data.List.Basic
import Mathlib.Tactic.Ring

abbrev Bytes := List UInt8

namespace Bytes

-- The last `w` base-256 digits of `n`, most significant first.
def be : Nat → Nat → Bytes
  | 0, _     => []
  | w + 1, n => be w (n / 256) ++ [UInt8.ofNat n]

def le (w n : Nat) : Bytes :=
  (be w n).reverse

def ofBe (bs : Bytes) : Nat :=
  bs.foldl (fun n b => n * 256 + b.toNat) 0

@[simp]
theorem be_length : (w n : Nat) → (be w n).length = w
  | 0, _     => rfl
  | w + 1, n => by simp [be, be_length w]

@[simp]
theorem le_length (w n : Nat) : (le w n).length = w := by
  simp [le]

theorem ofBe_concat (bs : Bytes) (b : UInt8) : ofBe (bs ++ [b]) = ofBe bs * 256 + b.toNat := by
  simp [ofBe]

theorem ofBe_be {w n : Nat} (h : n < 256 ^ w) : ofBe (be w n) = n := by
  induction w generalizing n
  case zero => simp at h; simp [be, ofBe, h]
  case succ w hi =>
    have hq : n / 256 < 256 ^ w := by
      rw [Nat.div_lt_iff_lt_mul (by decide)]
      rwa [pow_succ] at h
    rw [be, ofBe_concat, hi hq, UInt8.toNat_ofNat']
    omega

theorem be_inj {w n m : Nat} (hn : n < 256 ^ w) (hm : m < 256 ^ w) (h : be w n = be w m) :
    n = m := by
  rw [← ofBe_be hn, h, ofBe_be hm]

theorem le_inj {w n m : Nat} (hn : n < 256 ^ w) (hm : m < 256 ^ w) (h : le w n = le w m) :
    n = m :=
  be_inj hn hm <| List.reverse_injective h

-- Without its leading zeros, a big-endian number still has the same value.
theorem ofBe_dropWhile_zero (bs : Bytes) : ofBe (bs.dropWhile (· == 0)) = ofBe bs := by
  induction bs
  case nil => rfl
  case cons b bs hi =>
    by_cases hb : b = 0
    case pos => simpa [hb, ofBe] using hi
    case neg => simp [hb]

theorem be_succ_of_lt {w n : Nat} (h : n < 256 ^ w) : be (w + 1) n = 0 :: be w n := by
  induction w generalizing n
  case zero =>
    have hn : n = 0 := by simpa using h
    rw [hn]
    rfl
  case succ w hi =>
    have hq : n / 256 < 256 ^ w := by
      rw [Nat.div_lt_iff_lt_mul (by decide)]
      rwa [pow_succ] at h
    rw [be, hi hq, be, List.cons_append]

-- Without its leading zeros, a number does not tell its width.
theorem dropWhile_zero_be {w n : Nat} (h : n < 256 ^ w) (k : Nat) :
    (be (w + k) n).dropWhile (· == 0) = (be w n).dropWhile (· == 0) := by
  induction k
  case zero      => rfl
  case succ k hi =>
    have hk : n < 256 ^ (w + k) := h.trans_le <| Nat.pow_le_pow_right (by decide) (Nat.le_add_right ..)
    rw [← hi, ← Nat.add_assoc, be_succ_of_lt hk]
    rfl

-- Takes `w` bytes from the front.
def split (w : Nat) (bs : Bytes) : Option (Bytes × Bytes) :=
  if bs.length < w then none else some (bs.take w, bs.drop w)

@[simp]
theorem split_append {w : Nat} {bs rest : Bytes} (h : bs.length = w) :
    split w (bs ++ rest) = some (bs, rest) := by
  subst h
  simp [split]

def splitBe (w : Nat) (bs : Bytes) : Option (Nat × Bytes) :=
  (split w bs).map fun (n, rest) => (ofBe n, rest)

theorem splitBe_append {w n : Nat} {rest : Bytes} (h : n < 256 ^ w) :
    splitBe w (be w n ++ rest) = some (n, rest) := by
  simp [splitBe, split_append (be_length w n), ofBe_be h]

end Bytes
