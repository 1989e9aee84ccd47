import Mathlib.Data.Finset.Card
import Mathlib.Data.Finset.Max
import Mathlib.Data.Finset.Image
import Mathlib.Order.Basic

-- Selections of the newest elements: at most one for each key, and not more than a bound.
namespace Newest

variable {α κ τ : Type*} [DecidableEq κ] [LinearOrder τ] {key : α → κ} {time : α → τ} {k : Nat}
  {es S T B : Finset α} {a e f : α} {t u : τ}

-- The newest elements of each key. There are several of a key if they are of the same time.
def latest (key : α → κ) (time : α → τ) (es : Finset α) : Finset α :=
  es.filter fun e => ∀ f ∈ es, key f = key e → time f ≤ time e

-- The latest elements which are newer than a time, and those which are not older.
def after (key : α → κ) (time : α → τ) (es : Finset α) (t : τ) : Finset α :=
  (latest key time es).filter (t < time ·)

def since (key : α → κ) (time : α → τ) (es : Finset α) (t : τ) : Finset α :=
  (latest key time es).filter (t ≤ time ·)

-- The latest elements for which there is room.
def kept (key : α → κ) (time : α → τ) (k : Nat) (es : Finset α) : Finset α :=
  (latest key time es).filter fun e => (since key time es (time e)).card ≤ k

-- Elements of the same time do not compete: unless newer ones take all the room, there is room for
-- all the latest elements of a time, and they are of different keys.
def Decided (key : α → κ) (time : α → τ) (k : Nat) (es : Finset α) : Prop :=
  ∀ t, k ≤ (after key time es t).card ∨
    (since key time es t).card ≤ k ∧
      ∀ e ∈ latest key time es, ∀ f ∈ latest key time es,
        time e = t → time f = t → key e = key f → e = f

-- What has been selected of some elements. An element without a newer one of its key has been
-- left out for elements which are not older.
structure Selects (key : α → κ) (time : α → τ) (k : Nat) (es S : Finset α) : Prop where
  subset  : S ⊆ es
  card_le : S.card ≤ k
  inj     : Set.InjOn key S
  covers  : ∀ f ∈ es, (∃ e ∈ S, key e = key f ∧ time f ≤ time e) ∨
    k ≤ S.card ∧ ∀ e ∈ S, time f ≤ time e

theorem mem_latest :
    e ∈ latest key time es ↔ e ∈ es ∧ ∀ f ∈ es, key f = key e → time f ≤ time e :=
  Finset.mem_filter

theorem mem_after : e ∈ after key time es t ↔ e ∈ latest key time es ∧ t < time e :=
  Finset.mem_filter

theorem mem_since : e ∈ since key time es t ↔ e ∈ latest key time es ∧ t ≤ time e :=
  Finset.mem_filter

theorem mem_kept :
    e ∈ kept key time k es ↔ e ∈ latest key time es ∧ (since key time es (time e)).card ≤ k :=
  Finset.mem_filter

theorem since_subset_after (h : t < u) : since key time es u ⊆ after key time es t := by
  intro e he
  have ⟨hl, ht⟩ := mem_since.mp he
  exact mem_after.mpr ⟨hl, h.trans_le ht⟩

theorem after_subset_since : after key time es t ⊆ since key time es t := by
  intro e he
  have ⟨hl, ht⟩ := mem_after.mp he
  exact mem_since.mpr ⟨hl, ht.le⟩

theorem after_anti (h : t ≤ u) : after key time es u ⊆ after key time es t := by
  intro e he
  have ⟨hl, ht⟩ := mem_after.mp he
  exact mem_after.mpr ⟨hl, h.trans_lt ht⟩

theorem card_after_lt_card_since (h : e ∈ latest key time es) :
    (after key time es (time e)).card < (since key time es (time e)).card := by
  apply Finset.card_lt_card
  refine Finset.ssubset_iff_of_subset after_subset_since |>.mpr ⟨e, ?_, ?_⟩
  · exact mem_since.mpr ⟨h, le_rfl⟩
  · exact fun ha => lt_irrefl _ (mem_after.mp ha).right

-- Latest elements of a key are of the same time.
theorem time_eq_of_latest (he : e ∈ latest key time es) (hf : f ∈ latest key time es)
    (h : key e = key f) : time e = time f := by
  have ⟨hem, hel⟩ := mem_latest.mp he
  have ⟨hfm, hfl⟩ := mem_latest.mp hf
  exact le_antisymm (hfl e hem h) (hel f hfm h.symm)

theorem latest_of_erase [DecidableEq α] (h : f ∈ latest key time (es.erase e))
    (ht : time e ≤ time f) : f ∈ latest key time es := by
  have ⟨hf, hl⟩ := mem_latest.mp h
  refine mem_latest.mpr ⟨Finset.mem_of_mem_erase hf, fun g hg hk => ?_⟩
  by_cases hge : g = e
  case pos => exact hge ▸ ht
  case neg => exact hl g (Finset.mem_erase.mpr ⟨hge, hg⟩) hk

-- The newest elements which take all the room.
theorem exists_since (hk : 0 < k) (h : k ≤ (after key time es t).card) :
    ∃ u, t < u ∧ k ≤ (since key time es u).card ∧ (after key time es u).card < k := by
  classical
  let full := ((after key time es t).image time).filter fun u => k ≤ (since key time es u).card
  have exists_least {v : τ} (hv : k ≤ (after key time es v).card) :
      ∃ e ∈ after key time es v, k ≤ (since key time es (time e)).card := by
    have ⟨e, he, hm⟩ := (after key time es v).exists_min_image time <|
      Finset.card_pos.mp (hk.trans_le hv)
    refine ⟨e, he, hv.trans <| Finset.card_le_card fun f hf => ?_⟩
    exact mem_since.mpr ⟨(mem_after.mp hf).left, hm f hf⟩
  have hn : full.Nonempty := by
    have ⟨e, he, hs⟩ := exists_least h
    exact ⟨time e, Finset.mem_filter.mpr ⟨Finset.mem_image_of_mem time he, hs⟩⟩
  have ⟨u, hu, hm⟩ := full.exists_max_image id hn
  have ⟨hi, hs⟩ := Finset.mem_filter.mp hu
  obtain ⟨e, he, rfl⟩ := Finset.mem_image.mp hi
  have ht := (mem_after.mp he).right
  refine ⟨time e, ht, hs, Nat.lt_of_not_le fun ha => ?_⟩
  -- Otherwise, the least newer time takes all the room as well.
  have ⟨f, hf, hs⟩ := exists_least ha
  have hf' : time f ∈ full :=
    Finset.mem_filter.mpr ⟨Finset.mem_image_of_mem time <| after_anti ht.le hf, hs⟩
  exact absurd (mem_after.mp hf).right (hm _ hf').not_gt

-- With all the room taken by newer elements, these are of different keys.
theorem Decided.exists_distinct (h : Decided key time k es) (hk : 0 < k)
    (ht : k ≤ (after key time es t).card) :
    ∃ B ⊆ after key time es t, k ≤ B.card ∧ Set.InjOn key B := by
  have ⟨u, hu, hs, ha⟩ := exists_since hk ht
  refine ⟨since key time es u, since_subset_after hu, hs, ?_⟩
  intro e he f hf hkey
  have ⟨hel, het⟩ := mem_since.mp he
  have ⟨hfl, _⟩ := mem_since.mp hf
  cases h (time e)
  case inl hn => exact absurd (hn.trans <| Finset.card_le_card <| after_anti het) ha.not_ge
  case inr hd => exact hd.right e hel f hfl rfl (time_eq_of_latest hfl hel hkey.symm) hkey

-- If the latest elements which are not crowded out are all selected, they do not compete.
theorem decided_of_subset (hc : S.card ≤ k) (hi : Set.InjOn key S)
    (h : ∀ e ∈ latest key time es, (after key time es (time e)).card < k → e ∈ S) :
    Decided key time k es := by
  intro t
  by_cases ha : k ≤ (after key time es t).card
  case pos => exact .inl ha
  have hs : since key time es t ⊆ S := by
    intro e he
    have ⟨hl, ht⟩ := mem_since.mp he
    exact h e hl <| (Finset.card_le_card <| after_anti ht).trans_lt <| Nat.lt_of_not_le ha
  refine .inr ⟨(Finset.card_le_card hs).trans hc, fun e he f hf het hft hk => ?_⟩
  exact hi (hs <| mem_since.mpr ⟨he, het.ge⟩) (hs <| mem_since.mpr ⟨hf, hft.ge⟩) hk

-- Elements of different times do not compete.
theorem decided_of_injOn (h : Set.InjOn time es) : Decided key time k es := by
  classical
  intro t
  have eq_of_time {e f : α} (he : e ∈ latest key time es) (hf : f ∈ latest key time es)
      (ht : time e = time f) : e = f :=
    h (mem_latest.mp he).left (mem_latest.mp hf).left ht
  by_cases ha : k ≤ (after key time es t).card
  case pos => exact .inl ha
  refine .inr ⟨?_, fun e he f hf het hft _ => eq_of_time he hf (het.trans hft.symm)⟩
  have hs : (since key time es t \ after key time es t).card ≤ 1 := by
    have time_eq {e : α} (he : e ∈ since key time es t \ after key time es t) : time e = t := by
      have ⟨hs, hn⟩ := Finset.mem_sdiff.mp he
      have ⟨hl, ht⟩ := mem_since.mp hs
      exact le_antisymm (not_lt.mp fun ht => hn <| mem_after.mpr ⟨hl, ht⟩) ht
    refine Finset.card_le_one.mpr fun e he f hf => ?_
    have hel := (mem_since.mp <| Finset.mem_sdiff.mp he |>.left).left
    have hfl := (mem_since.mp <| Finset.mem_sdiff.mp hf |>.left).left
    exact eq_of_time hel hfl <| (time_eq he).trans (time_eq hf).symm
  rw [Finset.card_sdiff_of_subset after_subset_since] at hs
  omega

namespace Selects

omit [DecidableEq κ] in
theorem empty : Selects key time k ∅ ∅ where
  subset      := Finset.Subset.refl _
  card_le     := Nat.zero_le k
  inj _ h     := absurd h (Finset.notMem_empty _)
  covers _ h  := absurd h (Finset.notMem_empty _)

-- What is selected is the latest of its key.
theorem subset_latest (h : Selects key time k es S) : S ⊆ latest key time es := by
  intro e he
  refine mem_latest.mpr ⟨h.subset he, fun f hf hk => ?_⟩
  cases h.covers f hf
  case inl hc =>
    have ⟨g, hg, hgk, ht⟩ := hc
    exact h.inj hg he (hgk.trans hk) ▸ ht
  case inr hc => exact hc.right e he

theorem subset_kept (h : Selects key time k es S) (hd : Decided key time k es) :
    S ⊆ kept key time k es := by
  classical
  intro e he
  refine mem_kept.mpr ⟨h.subset_latest he, ?_⟩
  cases hd (time e)
  case inr hd => exact hd.left
  case inl ha =>
    have hp : 0 < S.card := Finset.card_pos.mpr ⟨e, he⟩
    have ⟨B, hB, hc, hi⟩ := hd.exists_distinct (hp.trans_le h.card_le) ha
    -- Each of them is of a key which is selected, but not of the one of `e`.
    have hs : B.image key ⊆ (S.erase e).image key := by
      intro i hm
      obtain ⟨b, hb, rfl⟩ := Finset.mem_image.mp hm
      have ⟨hbl, ht⟩ := mem_after.mp (hB hb)
      cases h.covers b (mem_latest.mp hbl).left
      case inr hf => exact absurd ht (hf.right e he).not_gt
      case inl hf =>
        have ⟨g, hg, hk, hg'⟩ := hf
        have hge : g ≠ e := fun hge => lt_irrefl _ <| (ht.trans_le hg').trans_eq (hge ▸ rfl)
        exact Finset.mem_image.mpr ⟨g, Finset.mem_erase.mpr ⟨hge, hg⟩, hk⟩
    have hk : B.card ≤ (S.erase e).card :=
      calc B.card
        _ = (B.image key).card           := (Finset.card_image_of_injOn hi).symm
        _ ≤ ((S.erase e).image key).card := Finset.card_le_card hs
        _ ≤ (S.erase e).card             := Finset.card_image_le
    rw [Finset.card_erase_of_mem he] at hk
    have := h.card_le
    omega

theorem kept_subset (h : Selects key time k es S) (hd : Decided key time k es) :
    kept key time k es ⊆ S := by
  classical
  intro e he
  have ⟨hl, hr⟩ := mem_kept.mp he
  cases h.covers e (mem_latest.mp hl).left
  case inl hc =>
    have ⟨g, hg, hk, _⟩ := hc
    have hgl := h.subset_latest hg
    cases hd (time e)
    case inl ha => exact absurd (ha.trans_lt <| card_after_lt_card_since hl) hr.not_gt
    case inr hd => exact hd.right g hgl e hl (time_eq_of_latest hgl hl hk) rfl hk ▸ hg
  case inr hc =>
    by_contra hn
    have hs : insert e S ⊆ since key time es (time e) := by
      intro g hg
      cases Finset.mem_insert.mp hg
      case inl hg => exact mem_since.mpr ⟨hg ▸ hl, hg ▸ le_rfl⟩
      case inr hg => exact mem_since.mpr ⟨h.subset_latest hg, hc.right g hg⟩
    have hs := Finset.card_le_card hs
    rw [Finset.card_insert_of_notMem hn] at hs
    have := hc.left
    omega

-- The order of selection does not matter as long as nothing competes.
theorem eq_kept (h : Selects key time k es S) (hd : Decided key time k es) :
    S = kept key time k es :=
  Finset.Subset.antisymm (h.subset_kept hd) (h.kept_subset hd)

variable [DecidableEq α]

omit [DecidableEq κ] in
-- An element which is not newer than a selected one of its key may be left out.
theorem insert_of_newer (h : Selects key time k es S) (hf : f ∈ S) (hk : key f = key a)
    (ht : time a ≤ time f) : Selects key time k (insert a es) S where
  subset  := h.subset.trans <| Finset.subset_insert a es
  card_le := h.card_le
  inj     := h.inj
  covers g hg := by
    cases Finset.mem_insert.mp hg
    case inl hg => exact .inl ⟨f, hf, hg ▸ hk, hg ▸ ht⟩
    case inr hg => exact h.covers g hg

-- The selection with a new element in the place of the one of its key.
def replace (key : α → κ) (a : α) (S : Finset α) : Finset α :=
  insert a <| S.filter (key · ≠ key a)

theorem mem_replace : e ∈ replace key a S ↔ e = a ∨ e ∈ S ∧ key e ≠ key a := by
  rw [replace, Finset.mem_insert, Finset.mem_filter]

theorem inj_replace (h : Set.InjOn key S) : Set.InjOn key (replace key a S) := by
  intro e he f hf hk
  rcases mem_replace.mp he, mem_replace.mp hf with ⟨rfl | ⟨he, hn⟩, rfl | ⟨hf, hn'⟩⟩
  · rfl
  · exact (hn' hk.symm).elim
  · exact (hn hk).elim
  · exact h he hf hk

theorem card_replace (h : Set.InjOn key S) : S.card ≤ (replace key a S).card := by
  have hf : (S.filter (key · = key a)).card ≤ 1 := by
    refine Finset.card_le_one.mpr fun e he f hf => ?_
    have ⟨he, hek⟩ := Finset.mem_filter.mp he
    have ⟨hf, hfk⟩ := Finset.mem_filter.mp hf
    exact h he hf (hek.trans hfk.symm)
  have hc : (S.filter (key · = key a)).card + (S.filter (key · ≠ key a)).card = S.card :=
    S.card_filter_add_card_filter_not _
  have hn : a ∉ S.filter (key · ≠ key a) := fun ha => absurd rfl (Finset.mem_filter.mp ha).right
  rw [replace, Finset.card_insert_of_notMem hn]
  omega

theorem exists_of_card_replace (h : (replace key a S).card ≤ S.card) : ∃ f ∈ S, key f = key a := by
  by_contra hn
  have hf : S.filter (key · ≠ key a) = S := Finset.filter_true_of_mem fun f hf hk => hn ⟨f, hf, hk⟩
  have ha : a ∉ S := fun ha => hn ⟨a, ha, rfl⟩
  rw [replace, hf, Finset.card_insert_of_notMem ha] at h
  omega

-- An element without room before the new one came has no room after it.
theorem full_trim (h : Selects key time k es S) (ha : ∀ f ∈ S, key f = key a → time f ≤ time a)
    (hs : T ⊆ replace key a S) (hk : T.card ≤ k)
    (hd : ∀ f ∈ replace key a S, f ∉ T → k ≤ T.card ∧ ∀ e ∈ T, time f ≤ time e)
    (hc : k ≤ S.card) (ht : ∀ e ∈ S, t ≤ time e) : k ≤ T.card ∧ ∀ e ∈ T, t ≤ time e := by
  -- The new element is not older either: it takes the place of another one.
  have hn : k ≤ T.card ∧ (a ∈ T → t ≤ time a) := by
    by_cases hsub : replace key a S ⊆ T
    case pos =>
      have hrt := Finset.card_le_card hsub
      have ⟨f, hf, hkey⟩ := exists_of_card_replace (hrt.trans <| hk.trans hc)
      have hr := card_replace (a := a) h.inj
      exact ⟨hc.trans <| hr.trans hrt, fun _ => (ht f hf).trans <| ha f hf hkey⟩
    case neg =>
      have ⟨g, hg, hgt⟩ := Finset.not_subset.mp hsub
      have ⟨hfull, hold⟩ := hd g hg hgt
      refine ⟨hfull, fun hat => ?_⟩
      cases mem_replace.mp hg
      case inl hga => exact absurd (hga ▸ hat) hgt
      case inr hgs => exact (ht g hgs.left).trans <| hold a hat
  refine ⟨hn.left, fun e he => ?_⟩
  cases mem_replace.mp (hs he)
  case inl he' => exact he' ▸ hn.right (he' ▸ he)
  case inr he' => exact ht e he'.left

-- What is left of a selection with a new element, if the oldest ones leave when there is no room.
theorem trim (h : Selects key time k es S) (ha : ∀ f ∈ S, key f = key a → time f ≤ time a)
    (hs : T ⊆ replace key a S) (hc : T.card ≤ k)
    (hd : ∀ f ∈ replace key a S, f ∉ T → k ≤ T.card ∧ ∀ e ∈ T, time f ≤ time e) :
    Selects key time k (insert a es) T where
  card_le := hc
  inj     := (inj_replace h.inj).mono hs
  subset e he := by
    cases mem_replace.mp (hs he)
    case inl hn => exact hn ▸ Finset.mem_insert_self a es
    case inr ho => exact Finset.mem_insert_of_mem <| h.subset ho.left
  covers f hf := by
    have covers_of_mem {g : α} (hg : g ∈ replace key a S) (hk : key g = key f)
        (ht : time f ≤ time g) :
        (∃ e ∈ T, key e = key f ∧ time f ≤ time e) ∨ k ≤ T.card ∧ ∀ e ∈ T, time f ≤ time e := by
      by_cases hgt : g ∈ T
      case pos => exact .inl ⟨g, hgt, hk, ht⟩
      case neg => exact .inr ⟨hd g hg hgt |>.left, fun e he => ht.trans <| (hd g hg hgt).right e he⟩
    cases Finset.mem_insert.mp hf
    case inl hn => exact covers_of_mem (mem_replace.mpr <| .inl rfl) (hn ▸ rfl) (hn ▸ le_rfl)
    case inr ho =>
      cases h.covers f ho
      case inl hg =>
        have ⟨g, hg, hk, ht⟩ := hg
        by_cases hka : key g = key a
        case pos =>
          have ht := ht.trans <| ha g hg hka
          exact covers_of_mem (mem_replace.mpr <| .inl rfl) (hka.symm.trans hk) ht
        case neg => exact covers_of_mem (mem_replace.mpr <| .inr ⟨hg, hka⟩) hk ht
      case inr hg => exact .inr <| full_trim h ha hs hc hd hg.left hg.right

end Selects

end Newest
