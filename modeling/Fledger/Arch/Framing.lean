import Fledger.Arch.Nodeids

open Bytes

theorem toVarint_out_length (i : Nat) : ((be 8 i).dropWhile (· == 0)).length ≤ 8 := by
  have h := (List.dropWhile_sublist (l := be 8 i) (· == 0)).length_le
  simpa using h

theorem varint_marker_inj : ∀ m ≤ 8, ∀ n ≤ 8,
    (UInt8.ofNat m ||| 0x80) = (UInt8.ofNat n ||| 0x80) → m = n := by
  decide

theorem varint_marker_ge : ∀ m ≤ 8, 0x80 ≤ (UInt8.ofNat m ||| 0x80).toNat := by
  decide

theorem toVarint_small_ne_large {i j : Nat} {r s : Bytes} (hi : i < 0x80) (hj : ¬j < 0x80) :
    toVarint i ++ r ≠ toVarint j ++ s := by
  intro h
  simp only [toVarint, if_pos hi, if_neg hj, List.cons_append, List.nil_append,
    List.cons.injEq] at h
  have hm := varint_marker_ge _ (toVarint_out_length j)
  rw [← h.left, UInt8.toNat_ofNat'] at hm
  omega

theorem toVarint_ne_nil (i : Nat) : toVarint i ≠ [] := by
  rw [toVarint]
  split <;> exact List.cons_ne_nil _ _

-- The number of bytes and the bytes themselves can be read back from the front of any input.
theorem toVarint_append_inj {i j : Nat} {r s : Bytes} (hi : i < 2 ^ 64) (hj : j < 2 ^ 64)
    (h : toVarint i ++ r = toVarint j ++ s) : i = j ∧ r = s := by
  cases Nat.lt_or_ge i 0x80 <;> cases Nat.lt_or_ge j 0x80
  case inl.inr hi' hj' => exact absurd h <| toVarint_small_ne_large hi' hj'.not_gt
  case inr.inl hi' hj' => exact absurd h.symm <| toVarint_small_ne_large hj' hi'.not_gt
  case inl.inl hi' hj' =>
    simp only [toVarint, if_pos hi', if_pos hj', List.cons_append, List.nil_append,
      List.cons.injEq] at h
    have hb := congrArg UInt8.toNat h.left
    rw [UInt8.toNat_ofNat', UInt8.toNat_ofNat'] at hb
    exact ⟨by omega, h.right⟩
  case inr.inr hi' hj' =>
    simp only [toVarint, if_neg hi'.not_gt, if_neg hj'.not_gt, List.cons_append,
      List.cons.injEq] at h
    have hl := varint_marker_inj _ (toVarint_out_length i) _ (toVarint_out_length j) h.left
    have ⟨ho, hr⟩ := List.append_inj h.right hl
    have hv := congrArg ofBe ho
    rw [ofBe_dropWhile_zero, ofBe_dropWhile_zero, ofBe_be (by omega), ofBe_be (by omega)] at hv
    exact ⟨hv, hr⟩

theorem dataInput_append_inj {a b r s : Bytes} (ha : a.length < 2 ^ 64) (hb : b.length < 2 ^ 64)
    (h : dataInput a ++ r = dataInput b ++ s) : a = b ∧ r = s := by
  simp only [dataInput, List.append_assoc] at h
  have ⟨hl, h⟩ := toVarint_append_inj ha hb h
  exact List.append_inj h hl

-- All lengths which `hash_domain_parts` writes in front of its parts are a `usize`.
def PartsFit (parts : List Bytes) : Prop :=
  parts.length < 2 ^ 64 ∧ ∀ part ∈ parts, part.length < 2 ^ 64

theorem flatMap_dataInput_inj {ps qs : List Bytes} (hl : ps.length = qs.length)
    (hp : ∀ part ∈ ps, part.length < 2 ^ 64) (hq : ∀ part ∈ qs, part.length < 2 ^ 64)
    (h : ps.flatMap dataInput = qs.flatMap dataInput) : ps = qs := by
  induction ps generalizing qs <;> cases qs <;> simp only [List.length_nil, List.length_cons,
    reduceCtorEq, Nat.add_right_cancel_iff] at hl
  case nil.nil => rfl
  case cons.cons p ps hi q qs =>
    simp only [List.flatMap_cons, List.forall_mem_cons] at h hp hq
    obtain ⟨hpq, h⟩ := dataInput_append_inj hp.left hq.left h
    rw [hpq, hi hl hp.right hq.right h]

theorem domainPartsInput_inj {d e : String} {ps qs : List Bytes}
    (hd : (strBytes d).length < 2 ^ 64) (he : (strBytes e).length < 2 ^ 64)
    (hp : PartsFit ps) (hq : PartsFit qs)
    (h : domainPartsInput d ps = domainPartsInput e qs) : d = e ∧ ps = qs := by
  simp only [domainPartsInput, List.append_assoc] at h
  have ⟨hde, h⟩ := dataInput_append_inj hd he h
  have ⟨hl, h⟩ := toVarint_append_inj hp.left hq.left h
  exact ⟨strBytes_inj hde, flatMap_dataInput_inj hl hp.right hq.right h⟩

-- The number of parts follows the domain, where the input of `hash_data` ends.
theorem domainPartsInput_ne_dataInput {d : String} {ps : List Bytes} {data : Bytes}
    (hd : (strBytes d).length < 2 ^ 64) (hl : data.length < 2 ^ 64) :
    domainPartsInput d ps ≠ dataInput data := by
  intro h
  rw [domainPartsInput, List.append_assoc, ← List.append_nil (dataInput data)] at h
  have ⟨_, hn⟩ := dataInput_append_inj hd hl h
  exact toVarint_ne_nil _ (List.append_eq_nil_iff.mp hn).left

theorem framing_unambiguous {d e : String} {ps qs : List Bytes} {data : Bytes}
    (hd : (strBytes d).length < 2 ^ 64) (he : (strBytes e).length < 2 ^ 64) (hp : PartsFit ps)
    (hq : PartsFit qs) (hl : data.length < 2 ^ 64) :
    (domainPartsInput d ps = domainPartsInput e qs → d = e ∧ ps = qs) ∧
      domainPartsInput d ps ≠ dataInput data :=
  ⟨domainPartsInput_inj hd he hp hq, domainPartsInput_ne_dataInput hd hl⟩

-- The same bytes, cut into parts in another way, and as they are.
theorem framing_of_cut :
    domainPartsInput "flo" [[1], [2, 3]] ≠ domainPartsInput "flo" [[1, 2], [3]] ∧
    domainPartsInput "flo" [[1], [2, 3]] ≠ dataInput (domainPartsInput "flo" [[1], [2, 3]]) := by
  have hp : PartsFit [[1], [2, 3]] := ⟨by decide, by decide⟩
  have hq : PartsFit [[1, 2], [3]] := ⟨by decide, by decide⟩
  have hd : (strBytes "flo").length < 2 ^ 64 := by decide
  have h := framing_unambiguous hd hd hp hq
    (by decide : (domainPartsInput "flo" [[1], [2, 3]]).length < 2 ^ 64)
  exact ⟨fun he => absurd (h.left he).right (by decide), h.right⟩
