import Mathlib

abbrev F64 :=
  Float

namespace F64

-- `n as f64`.
def ofI64 (n : Int) : F64 :=
  .ofModel <| .ofInt64 <| .ofInt n

-- `x as i64`, which truncates and saturates.
def toI64 (x : F64) : Int :=
  x.toModel.toInt64.toInt

-- The number for which a float stands.
def valueOf : Float.Model.UnpackedFloat → Option Rat
  | .zero _         => some 0
  | .finite s m e _ => some <| s.apply m * 2 ^ e
  | _               => none

def value (x : F64) : Option Rat :=
  valueOf x.toModel.unpack

open Float.Model (UnpackedFloat Format)
open Float.Model.UnpackedFloat

abbrev binary64 := Format.binary64

theorem append_one {m : Nat} (h : m.log2 = 52) : (1#1 ++ BitVec.ofNat 52 m).toNat = m := by
  have hm : m ≠ 0 := by
    rintro rfl
    exact absurd h (by decide)
  obtain ⟨hl, hu⟩ := (Nat.log2_eq_iff hm).mp h
  rw [BitVec.toNat_append, ← Nat.shiftLeft_add_eq_or_of_lt (BitVec.isLt _), BitVec.toNat_ofNat,
    BitVec.toNat_ofNat, Nat.shiftLeft_eq]
  omega

theorem ofNat_ne {n : Nat} {b : BitVec 11} (hn : n < 2 ^ 11) (h : n ≠ b.toNat) :
    BitVec.ofNat 11 n ≠ b := by
  rintro rfl
  rw [BitVec.toNat_ofNat, Nat.mod_eq_of_lt hn] at h
  exact h rfl

theorem pack_finite {s : Sign} {m : Nat} {e : Int} {hp : 0 < m} (hm : m.log2 = 52)
    (hu : e ≤ 971) :
    pack binary64 (.finite s m e hp) =
      packComponents binary64 s (.ofNat 11 (e + 1075).toNat) (.ofNat 52 m) := by
  have he : e + 1023 + 52 = e + 1075 := by omega
  simp [pack, Format.exponentBias, Format.mantissaBits, hm, he]
  omega

theorem unpack_pack {s : Sign} {m : Nat} {e : Int} {hp : 0 < m} (hm : m.log2 = 52)
    (hl : -1074 ≤ e) (hu : e ≤ 971) :
    unpack binary64 (pack binary64 (.finite s m e hp)) = .finite s m e hp := by
  have hn : (e + 1075).toNat < 2 ^ 11 := by omega
  have h₁ : BitVec.ofNat 11 (e + 1075).toNat ≠ 2047#11 := ofNat_ne hn (by simp; omega)
  have h₀ : BitVec.ofNat 11 (e + 1075).toNat ≠ 0#11 := ofNat_ne hn (by simp; omega)
  have he : max (e + 1075) 0 % 2048 - 1075 = e := by omega
  rw [pack_finite hm hu]
  simp [unpack, h₁, h₀, append_one hm, Format.exponentBias, he]

theorem shiftRight_mantissa (em : ExtendedMantissa) (k : Nat) :
    (em >>> k).mantissa = em.mantissa / 2 ^ k := by
  induction k
  case zero      => exact (Nat.div_one _).symm
  case succ k hi =>
    calc (em >>> (k + 1)).mantissa
      _ = (em >>> k).mantissa / 2   := rfl
      _ = em.mantissa / 2 ^ k / 2   := by rw [hi]
      _ = em.mantissa / 2 ^ (k + 1) := by rw [Nat.div_div_eq_div_mul, Nat.pow_succ]

theorem shiftToExponent_self {m : Nat} {e : Int} :
    shiftToExponent m e .exact e = (⟨m, false, false⟩, e) := by
  simp [shiftToExponent, ExtendedMantissa.ofMantissaAndAccuracy]
  rfl

theorem targetExponent_of_log2 {m : Nat} {e : Int} (hm : m.log2 = 52) (hl : -1074 ≤ e) :
    binary64.targetExponent (Float.Model.totalExponent m e) = e := by
  simp [Format.targetExponent, Float.Model.totalExponent, Format.mantissaBits, Format.minExponent,
    hm]
  omega

theorem roundWithAccuracy_exact {s : Sign} {m : Nat} {e : Int} {hp : 0 < m} (hm : m.log2 = 52)
    (hl : -1074 ≤ e) : roundWithAccuracy binary64 s m e .exact = .finite s m e hp := by
  have ht : shiftToTargetExponent binary64 m e .exact = (⟨m, false, false⟩, e) := by
    rw [shiftToTargetExponent, targetExponent_of_log2 hm hl, shiftToExponent_self]
  have hr : (ExtendedMantissa.mk m false false).roundedMantissa = m := rfl
  simp [roundWithAccuracy, ht, hr, hp.ne']

theorem log2_mul_pow {m k : Nat} (hp : 0 < m) : (m * 2 ^ k).log2 = m.log2 + k := by
  obtain ⟨hl, hu⟩ := (Nat.log2_eq_iff hp.ne').mp rfl
  refine (Nat.log2_eq_iff <| by positivity).mpr ?_
  constructor
  case left  =>
    rw [Nat.pow_add]
    exact Nat.mul_le_mul_right _ hl
  case right =>
    rw [Nat.add_right_comm, Nat.pow_add]
    exact Nat.mul_lt_mul_of_pos_right hu <| Nat.two_pow_pos k

-- What has at most 53 digits is not rounded.
theorem round_exact {s : Sign} {m : Nat} (hp : 0 < m) (hm : m < 2 ^ 53) :
    ∃ (k : Nat) (h : _), UnpackedFloat.round binary64 s m 0 = .finite s (m * 2 ^ k) (-k) h ∧
      (m * 2 ^ k).log2 = 52 ∧ k ≤ 52 := by
  have hl : m.log2 < 53 := (Nat.log2_lt hp.ne').mpr hm
  obtain ⟨k, hk⟩ := Nat.exists_eq_add_of_le (Nat.lt_succ_iff.mp hl)
  have hlog : (m * 2 ^ k).log2 = 52 := by rw [log2_mul_pow hp, ← hk]
  have ht : binary64.targetExponent (Float.Model.totalExponent m 0) = -k := by
    simp [Format.targetExponent, Float.Model.totalExponent, Format.mantissaBits, Format.minExponent]
    omega
  have hd : decreaseExponent m 0 (-k) = (m * 2 ^ k, -(k : Int)) := by
    simp [decreaseExponent, Nat.shiftLeft_eq]
  refine ⟨k, by positivity, ?_, hlog, by omega⟩
  rw [UnpackedFloat.round, ht, hd]
  exact roundWithAccuracy_exact hlog (by omega)

theorem roundToInt_natCast (s : Sign) (m k : Nat) : roundToInt s m k = s.apply ↑(m * 2 ^ k) := by
  simp [roundToInt, decreaseExponent, Nat.shiftLeft_eq, shiftToExponent_self]

theorem roundToInt_neg (s : Sign) (m k : Nat) :
    roundToInt s m (-k) = s.apply ↑(m / 2 ^ k) := by
  simp [roundToInt, decreaseExponent, shiftToExponent, shiftRight_mantissa,
    ExtendedMantissa.ofMantissaAndAccuracy]

theorem apply_mul {s : Sign} {a b : Int} : s.apply (a * b) = s.apply a * b := by
  cases s
  case negative => exact (neg_mul a b).symm
  case positive => rfl

theorem apply_apply {s : Sign} {a : Int} : s.apply (s.apply a) = a := by
  cases s
  case negative => exact neg_neg a
  case positive => rfl

-- A whole number is cut off nowhere.
theorem roundToInt_of_whole {s : Sign} {m : Nat} {e n : Int} (h : (s.apply m : Rat) * 2 ^ e = n) :
    roundToInt s m e = n := by
  obtain ⟨k, rfl | rfl⟩ := e.eq_nat_or_neg
  case inl =>
    rw [zpow_natCast] at h
    rw [roundToInt_natCast, Nat.cast_mul, apply_mul]
    exact_mod_cast h
  case inr =>
    rw [zpow_neg, zpow_natCast, mul_inv_eq_iff_eq_mul₀ (by positivity)] at h
    have hs : s.apply m = n * 2 ^ k := by exact_mod_cast h
    have hm : (m : Int) = s.apply n * 2 ^ k := by rw [← apply_mul, ← hs, apply_apply]
    rw [roundToInt_neg, Int.natCast_div, Nat.cast_pow, Nat.cast_ofNat, hm,
      Int.mul_ediv_cancel _ (by positivity), apply_apply]

theorem toInt_of_whole {x : UnpackedFloat} {n : Int} (h : valueOf x = some (n : Rat)) (l u : Int) :
    x.toInt l u = n := by
  cases x
  case infinity       => cases h
  case notANumber     => cases h
  case zero           => exact_mod_cast Option.some.inj h
  case finite s m e _ => exact roundToInt_of_whole <| Option.some.inj h

-- The cast truncates, but not a whole number.
theorem toI64_of_whole {x : F64} {n : Int} (h : x.value = some (n : Rat)) (hl : -2 ^ 63 ≤ n)
    (hu : n < 2 ^ 63) : x.toI64 = n := by
  have ht : x.toModel.toInt64 = .ofIntClamp n := congrArg _ <| toInt_of_whole h _ _
  rw [toI64, ht]
  exact Int64.toInt_ofIntClamp hl <| Int.le_sub_one_of_lt hu

theorem round_last {s : Sign} :
    UnpackedFloat.round binary64 s (2 ^ 53) 0 = .finite s (2 ^ 52) 1 (Nat.two_pow_pos 52) := by
  cases s <;> rfl

theorem value_round {s : Sign} {m : Nat} (hp : 0 < m) (hm : m ≤ 2 ^ 53) :
    valueOf (unpack binary64 <| pack binary64 <| UnpackedFloat.round binary64 s m 0) =
      some (s.apply m : Rat) := by
  cases Nat.lt_or_eq_of_le hm
  case inl hm =>
    obtain ⟨k, _, hr, hl, _⟩ := round_exact (s := s) hp hm
    rw [hr, unpack_pack hl (by omega) (by omega), valueOf, Nat.cast_mul, apply_mul, zpow_neg,
      zpow_natCast]
    push_cast
    rw [mul_inv_cancel_right₀ (by positivity)]
  case inr hm =>
    rw [hm, round_last, unpack_pack Nat.log2_two_pow (by decide) (by decide), valueOf]
    cases s <;> norm_num [Sign.apply]

theorem value_ofI64 {n : Int} (hl : -2 ^ 53 ≤ n) (hu : n ≤ 2 ^ 53) :
    (ofI64 n).value = some (n : Rat) := by
  have hn : (Int64.ofInt n).toInt = n := Int64.toInt_ofInt_of_le (by omega) (by omega)
  change valueOf (unpack binary64 <| pack binary64 <|
    UnpackedFloat.normalize binary64 (Int64.ofInt n).toInt 0 .positive) = _
  rw [hn, UnpackedFloat.normalize]
  cases hc : compare n 0
  case lt =>
    have hn : n < 0 := compare_lt_iff_lt.mp hc
    have ha : Sign.negative.apply (-n).toNat = n := by
      rw [Sign.apply, Int.toNat_of_nonneg (by omega), Int.neg_neg]
    rw [value_round (by omega) (by omega), ha]
  case eq =>
    rw [compare_eq_iff_eq.mp hc]
    rfl
  case gt =>
    have hn : 0 < n := compare_gt_iff_gt.mp hc
    have ha : Sign.positive.apply n.toNat = n := Int.toNat_of_nonneg hn.le
    rw [value_round (by omega) (by omega), ha]

-- What is within `2 ^ 53` comes back.
theorem toI64_ofI64 {n : Int} (hl : -2 ^ 53 ≤ n) (hu : n ≤ 2 ^ 53) : (ofI64 n).toI64 = n :=
  toI64_of_whole (value_ofI64 hl hu) (by omega) (by omega)

-- From there on times are rounded.
example : ofI64 (2 ^ 53 + 1) = ofI64 (2 ^ 53) := by
  decide +kernel

end F64
