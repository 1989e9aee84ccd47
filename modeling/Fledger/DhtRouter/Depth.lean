import Fledger.Arch.Nodeids

namespace U256

def bit (u : U256) (n : Nat) : Bool :=
  (u.bytes.getD (n / 8) 0).toNat.testBit (7 - n % 8)

end U256

namespace KNode

-- The position of the first set bit, where the most significant bit has position 0.
def leadingBit (xorResult : UInt8) : Option Nat :=
  (List.range 8).reverse.findSome? fun i =>
    if xorResult &&& (1 <<< UInt8.ofNat i) ≠ 0 then some (7 - i) else none

def getDepth (root id : U256) : Nat :=
  ((root.bytes.zip id.bytes).zipIdx.findSome? fun ((rootByte, idByte), index) =>
    (leadingBit (rootByte ^^^ idByte)).map (index * 8 + ·)) |>.getD (id.bytes.length * 8 - 1)

def isLeadingBit (n : Nat) (m : Option Nat) : Bool :=
  m.elim (n == 0) fun m =>
    m < 8 && n.testBit (7 - m) && (List.range m).all fun k => !n.testBit (7 - k)

theorem leadingBit_table : ∀ n < 256, isLeadingBit n (leadingBit (UInt8.ofNat n)) := by
  decide +kernel

theorem leadingBit_eq_none {x y : UInt8} (h : leadingBit (x ^^^ y) = none) : x = y := by
  have ht := leadingBit_table (x ^^^ y).toNat (UInt8.toNat_lt _)
  rw [UInt8.ofNat_toNat, h] at ht
  exact UInt8.xor_eq_zero_iff.mp <| UInt8.toNat_inj.mp <| by simpa [isLeadingBit] using ht

theorem leadingBit_eq_some {x y : UInt8} {m : Nat} (h : leadingBit (x ^^^ y) = some m) :
    m < 8 ∧ x.toNat.testBit (7 - m) ≠ y.toNat.testBit (7 - m) ∧
      ∀ n < m, x.toNat.testBit (7 - n) = y.toNat.testBit (7 - n) := by
  have ht := leadingBit_table (x ^^^ y).toNat (UInt8.toNat_lt _)
  rw [UInt8.ofNat_toNat, h] at ht
  simp only [isLeadingBit, Option.elim_some, UInt8.toNat_xor, Nat.testBit_xor, Bool.and_eq_true,
    decide_eq_true_eq, List.all_eq_true, List.mem_range] at ht
  exact ⟨ht.left.left, by simpa using ht.left.right, fun n hn => by simpa using ht.right n hn⟩

-- The loop of `get_depth` over the remaining bytes, of which the first has index `k`.
def depthFrom (k : Nat) (as bs : Bytes) : Option Nat :=
  ((as.zip bs).zipIdx k).findSome? fun ((rootByte, idByte), index) =>
    (leadingBit (rootByte ^^^ idByte)).map (index * 8 + ·)

theorem depthFrom_eq_none {k : Nat} {as bs : Bytes} (hl : as.length = bs.length)
    (h : depthFrom k as bs = none) : as = bs := by
  induction as generalizing k bs <;> cases bs <;> simp only [List.length_nil, List.length_cons,
    reduceCtorEq, Nat.add_right_cancel_iff] at hl
  case nil.nil => rfl
  case cons.cons a as hi b bs =>
    simp only [depthFrom, List.zip_cons_cons, List.zipIdx_cons, List.findSome?_cons] at h
    cases hb : leadingBit (a ^^^ b) <;> simp [hb] at h
    case none =>
      have hd : depthFrom (k + 1) as bs = none :=
        List.findSome?_eq_none_iff.mpr (by simpa using h)
      rw [leadingBit_eq_none hb, hi hl hd]

theorem depthFrom_eq_some {k d : Nat} {as bs : Bytes} (h : depthFrom k as bs = some d) :
    ∃ i m, d = (k + i) * 8 + m ∧ i < as.length ∧ i < bs.length ∧ m < 8 ∧
      (∀ j < i, as.getD j 0 = bs.getD j 0) ∧
      (as.getD i 0).toNat.testBit (7 - m) ≠ (bs.getD i 0).toNat.testBit (7 - m) ∧
      ∀ n < m, (as.getD i 0).toNat.testBit (7 - n) = (bs.getD i 0).toNat.testBit (7 - n) := by
  induction as generalizing k bs <;> cases bs <;> simp [depthFrom, List.findSome?_cons] at h
  case cons.cons a as hi b bs =>
    cases hb : leadingBit (a ^^^ b) <;> simp [hb] at h
    case some m =>
      have ⟨hm, hd, ha⟩ := leadingBit_eq_some hb
      exact ⟨0, m, by simp [h], by simp, by simp, hm, by simp, by simpa using hd, by simpa using ha⟩
    case none =>
      have ⟨i, m, hk, hia, hib, hm, hj, hd, ha⟩ := hi h
      refine ⟨i + 1, m, by omega, by simpa, by simpa, hm, fun j hlt => ?_, hd, ha⟩
      cases j
      case zero   => simpa using leadingBit_eq_none hb
      case succ j => exact hj j (by omega)

-- What `get_depth` computes: the ids agree on all bits in front of `d`, and unless they are equal
-- they differ at `d`.
structure IsDepth (a b : U256) (d : Nat) : Prop where
  lt    : d < 256
  agree : ∀ n < d, a.bit n = b.bit n
  diff  : a ≠ b → a.bit d ≠ b.bit d
  eq    : a = b → d = 255

theorem IsDepth.symm {a b : U256} {d : Nat} (h : IsDepth a b d) : IsDepth b a d where
  lt    := h.lt
  agree := fun n hn => (h.agree n hn).symm
  diff  := fun hne => (h.diff hne.symm).symm
  eq    := fun he => h.eq he.symm

theorem IsDepth.unique {a b : U256} {d e : Nat} (hd : IsDepth a b d) (he : IsDepth a b e) :
    d = e := by
  by_cases hab : a = b
  case pos => rw [hd.eq hab, he.eq hab]
  case neg =>
    rcases Nat.lt_trichotomy d e with h | h | h
    · exact absurd (he.agree d h) (hd.diff hab)
    · exact h
    · exact absurd (hd.agree e h) (he.diff hab)

theorem isDepth_getDepth (a b : U256) : IsDepth a b (getDepth a b) := by
  have hg : getDepth a b = (depthFrom 0 a.bytes b.bytes).getD 255 := by
    simp [getDepth, depthFrom, b.length_bytes]
  rw [hg]
  cases hd : depthFrom 0 a.bytes b.bytes
  case none =>
    have he := U256.ext <| depthFrom_eq_none (a.length_bytes.trans b.length_bytes.symm) hd
    exact ⟨by simp, by simp [he], (absurd he ·), by simp⟩
  case some =>
    have ⟨i, m, hk, hi, _, hm, hj, hne, ha⟩ := depthFrom_eq_some hd
    rw [a.length_bytes] at hi
    have hdiff : a.bit (i * 8 + m) ≠ b.bit (i * 8 + m) := by
      have hq : (i * 8 + m) / 8 = i := by omega
      have hr : (i * 8 + m) % 8 = m := by omega
      simpa only [U256.bit, hq, hr] using hne
    subst hk
    simp only [Nat.zero_add, Option.getD_some]
    refine ⟨by omega, fun n hn => ?_, fun _ => hdiff, fun he => absurd (he ▸ rfl) hdiff⟩
    simp only [U256.bit]
    by_cases hq : n / 8 = i
    case pos => rw [hq]; exact ha _ (by omega)
    case neg => rw [hj _ (by omega)]

section

variable {a b c : U256} {n : Nat}

theorem getDepth_lt (a b : U256) : getDepth a b < 256 :=
  (isDepth_getDepth a b).lt

@[simp]
theorem getDepth_self (a : U256) : getDepth a a = 255 :=
  (isDepth_getDepth a a).eq rfl

theorem getDepth_comm (a b : U256) : getDepth a b = getDepth b a :=
  (isDepth_getDepth a b).unique (isDepth_getDepth b a).symm

theorem bit_eq_of_lt_getDepth (h : n < getDepth a b) : a.bit n = b.bit n :=
  (isDepth_getDepth a b).agree n h

theorem bit_getDepth_ne (h : a ≠ b) : a.bit (getDepth a b) ≠ b.bit (getDepth a b) :=
  (isDepth_getDepth a b).diff h

theorem le_getDepth_of_agree (hn : n < 256) (h : ∀ m < n, a.bit m = b.bit m) :
    n ≤ getDepth a b := by
  by_cases hab : a = b
  case pos => simp only [hab, getDepth_self]; omega
  case neg => exact Nat.le_of_not_lt fun hlt => bit_getDepth_ne hab (h _ hlt)

-- Two ids are at least as close to each other as the further one of them is to a third one.
theorem min_getDepth_le (a b c : U256) : min (getDepth a b) (getDepth b c) ≤ getDepth a c := by
  refine le_getDepth_of_agree (min_lt_of_left_lt (getDepth_lt a b)) fun m hm => ?_
  rw [lt_min_iff] at hm
  rw [bit_eq_of_lt_getDepth hm.left, bit_eq_of_lt_getDepth hm.right]

-- Of the three depths between three ids, the two smallest are the same.
theorem getDepth_eq_of_lt (h : getDepth a b < getDepth b c) : getDepth a c = getDepth a b := by
  have h₁ := min_getDepth_le a b c
  have h₂ := min_getDepth_le a c b
  rw [getDepth_comm c b] at h₂
  omega

-- Ids which branch off from `a` at the same bit share this bit.
theorem lt_getDepth_of_eq (hb : a ≠ b) (hc : a ≠ c) (h : getDepth a b = getDepth a c) :
    getDepth a b < getDepth b c ∨ b = c := by
  by_cases hbc : b = c
  case pos => exact .inr hbc
  case neg =>
    have hle := min_getDepth_le b a c
    rw [getDepth_comm b a, h, min_self] at hle
    refine .inl <| h ▸ lt_of_le_of_ne hle fun he => bit_getDepth_ne hbc ?_
    have h₁ := bit_getDepth_ne hb
    have h₂ := bit_getDepth_ne hc
    rw [h] at h₁
    rw [← he]
    revert h₁ h₂
    cases a.bit (getDepth a c) <;> cases b.bit (getDepth a c) <;> cases c.bit (getDepth a c) <;>
      simp

theorem getDepth_ultrametric (a b c : U256) : IsDepth a b (getDepth a b) ∧
    getDepth a b = getDepth b a ∧
    min (getDepth a b) (getDepth b c) ≤ getDepth a c ∧
    ∀ d < 255, getDepth a b = d → getDepth a c = d → d < getDepth b c ∨ b = c := by
  refine ⟨isDepth_getDepth a b, getDepth_comm a b, min_getDepth_le a b c, ?_⟩
  -- Below the cap, neither of them is `a` itself.
  intro d hd hb hc
  have ha {x : U256} (hx : getDepth a x = d) : a ≠ x := by
    rintro rfl
    rw [getDepth_self] at hx
    omega
  exact hb ▸ lt_getDepth_of_eq (ha hb) (ha hc) (hb.trans hc.symm)

end

end KNode
