import Fledger.DhtStorage.Bound

namespace RealmStorage

variable {s s' : RealmStorage} {parent cuckoo : FloID} {fs : FloStorage} {flo : Flo}

-- The id is among the cuckoos which are recorded for a stored flo.
def Linked (s : RealmStorage) (parent cuckoo : FloID) : Prop :=
  ∃ cuckoos, s.getCuckooIds parent = some cuckoos ∧ cuckoo ∈ cuckoos

theorem linked_iff : s.Linked parent cuckoo ↔
    ∃ fs, s.flos.lookup parent = some fs ∧ cuckoo ∈ fs.cuckoos := by
  simp [Linked, getCuckooIds]

theorem Linked.congr (h : s.Linked parent cuckoo)
    (hl : s'.flos.lookup parent = s.flos.lookup parent) : s'.Linked parent cuckoo := by
  rwa [linked_iff, hl, ← linked_iff]

theorem Linked.storeCuckooId (h : s.Linked parent cuckoo) (p c : FloID) :
    (s.storeCuckooId p c).Linked parent cuckoo := by
  obtain ⟨fs, hl, hc⟩ := linked_iff.mp h
  rw [linked_iff, lookup_storeCuckooId]
  split
  case isFalse => exact ⟨fs, hl, hc⟩
  case isTrue  =>
    refine ⟨fs.withCuckoo c, by rw [hl, Option.map_some], ?_⟩
    unfold FloStorage.withCuckoo
    split
    case isTrue  => exact List.mem_append_left _ hc
    case isFalse => exact hc

theorem Linked.storeCuckooIds (h : s.Linked parent cuckoo) (p : FloID) (cuckoos : List FloID) :
    (s.storeCuckooIds p cuckoos).Linked parent cuckoo := by
  unfold RealmStorage.storeCuckooIds
  induction cuckoos generalizing s
  case nil         => exact h
  case cons c _ hi => exact hi <| h.storeCuckooId p c

theorem linked_storeCuckooId (hm : parent ∈ s.flos) (cuckoo : FloID) :
    (s.storeCuckooId parent cuckoo).Linked parent cuckoo := by
  obtain ⟨fs, hl⟩ := HashMap.mem_iff_lookup.mp hm
  rw [linked_iff, lookup_storeCuckooId, if_pos rfl, hl]
  exact ⟨_, rfl, fs.mem_withCuckoo cuckoo⟩

variable [Sha256]

theorem Linked.adoptCuckoo (h : s.Linked parent cuckoo) (flo : Flo) :
    (s.adoptCuckoo flo).Linked parent cuckoo := by
  unfold RealmStorage.adoptCuckoo
  split
  case h_1 => exact h.storeCuckooId ..
  case h_2 => exact h

-- The operations which change a storage, with their arguments.
inductive Op where
  | upsertFlo (estimated stored : Int) (flo : Flo)
  | storeCuckooId (parent cuckoo : FloID)
  | storeCuckooIds (parent : FloID) (cuckoos : List FloID)

namespace Op

def Does (s s' : RealmStorage) : Op → Prop
  | .upsertFlo estimated stored flo => ∃ isNew, s.Upserts estimated stored flo s' isNew
  | .storeCuckooId parent cuckoo    => s' = s.storeCuckooId parent cuckoo
  | .storeCuckooIds parent cuckoos  => s' = s.storeCuckooIds parent cuckoos

-- The flo, which is stored, is replaced by a newer version.
def Renews (s : RealmStorage) (id : FloID) : Op → Prop
  | .upsertFlo _ _ flo => flo.floId = id ∧ ¬s.oversized flo ∧
    ∃ old, s.flos.lookup id = some old ∧ old.version < flo.version
  | _                  => False

variable {op : Op}

theorem Does.step (h : op.Does s s') : Step s s' := by
  cases op
  case upsertFlo      => exact .upsertFlo h.choose_spec
  case storeCuckooId  => exact h ▸ .storeCuckooId ..
  case storeCuckooIds => exact h ▸ .storeCuckooIds ..

-- The only operation which loses a link of a flo that stays is its renewal.
theorem Does.linked_iff (h : op.Does s s') (hw : s.Wf) (hl : s.Linked parent cuckoo)
    (hm : parent ∈ s'.flos) : s'.Linked parent cuckoo ↔ ¬op.Renews s parent := by
  cases op
  case storeCuckooId p c =>
    simp only [Renews, not_false_iff, iff_true]
    exact h ▸ hl.storeCuckooId p c
  case storeCuckooIds p cuckoos =>
    simp only [Renews, not_false_iff, iff_true]
    exact h ▸ hl.storeCuckooIds p cuckoos
  case upsertFlo estimated stored flo =>
    obtain ⟨isNew, hu⟩ := h
    obtain ⟨old, hold, _⟩ := RealmStorage.linked_iff.mp hl
    simp only [Renews]
    by_cases ho : s.oversized flo
    case pos =>
      obtain ⟨rfl, _⟩ := (upserts_of_oversized ho).mp hu
      simpa [ho] using hl
    case neg =>
      have ht := (upserts_iff ho).mp hu |>.right |>.trimmed (hw.taken ..) |>.mem hm
      rw [lookup_taken hold] at ht
      split at ht
      case isTrue hp =>
        obtain ⟨hp, hv⟩ := hp
        simp [RealmStorage.linked_iff, ht, FloStorage.ofFlo, hp, ho, hold, hv]
      case isFalse hp =>
        refine iff_of_true ((hl.adoptCuckoo flo).congr ht) ?_
        rintro ⟨he, _, old', hold', hv⟩
        rw [hold, Option.some.injEq] at hold'
        exact hp ⟨he, hold' ▸ hv⟩

end Op

-- A run during which a flo stays stored.
def Stays (parent : FloID) : RealmStorage → List (Op × RealmStorage) → Prop
  | _, []             => True
  | s, (op, s') :: es => op.Does s s' ∧ parent ∈ s'.flos ∧ Stays parent s' es

-- No operation of the run replaces the flo by a newer version.
def NeverRenews (parent : FloID) : RealmStorage → List (Op × RealmStorage) → Prop
  | _, []             => True
  | s, (op, s') :: es => ¬op.Renews s parent ∧ NeverRenews parent s' es

-- A link is kept through a run exactly if the parent is never renewed.
theorem Reachable.linked_iff_neverRenews (h : Reachable s) (hl : s.Linked parent cuckoo)
    {run : List (Op × RealmStorage)} (hr : Stays parent s run) :
    (∀ e ∈ run, e.2.Linked parent cuckoo) ↔ NeverRenews parent s run := by
  induction run generalizing s
  case nil => simp [NeverRenews]
  case cons e es hi =>
    obtain ⟨op, s'⟩ := e
    obtain ⟨hd, hm, hs⟩ := hr
    have hstep := hd.linked_iff h.wf hl hm
    simp only [List.forall_mem_cons, NeverRenews, ← hstep]
    exact and_congr_right fun hl' => hi (h.step hd.step) hl' hs

end RealmStorage

namespace RealmStorage

attribute [local instance] Sha256.rolling

-- A flo with a cuckoo, and its next version.
def page : Flo :=
  .sample roomy.realmId 1 5

def editedPage : Flo :=
  { page with dataVersion := 1, data := [2] }

def comment : Flo :=
  .sample roomy.realmId 2 5

def commented : RealmStorage :=
  (roomy.taken 0 0 page).storeCuckooId page.floId comment.floId

theorem reachable_commented : Reachable commented :=
  (Reachable.taken (.new ..) (by decide +kernel) (by decide +kernel)).step <| .storeCuckooId ..

theorem linked_commented : commented.Linked page.floId comment.floId :=
  linked_storeCuckooId (by decide +kernel) _

def edited : RealmStorage :=
  commented.taken 0 0 editedPage

theorem commented_upserts : ∃ isNew, commented.Upserts 0 0 editedPage edited isNew :=
  upserts_taken (by decide +kernel) (by decide +kernel)

theorem linked_iff_neverRenews_commented :
    (∀ e ∈ [(Op.upsertFlo 0 0 editedPage, edited)], e.2.Linked page.floId comment.floId) ↔
    NeverRenews page.floId commented [(Op.upsertFlo 0 0 editedPage, edited)] :=
  reachable_commented.linked_iff_neverRenews linked_commented
    ⟨commented_upserts, by decide +kernel, trivial⟩

-- The next version of the flo is stored without the cuckoo.
theorem edited_not_linked : Reachable commented ∧ commented.Linked page.floId comment.floId ∧
    Stays page.floId commented [(.upsertFlo 0 0 editedPage, edited)] ∧
    ¬edited.Linked page.floId comment.floId := by
  refine ⟨reachable_commented, linked_commented, ⟨commented_upserts, by decide +kernel, trivial⟩, ?_⟩
  rintro ⟨cuckoos, hc, hm⟩
  have he : edited.getCuckooIds page.floId = some [] := by decide +kernel
  rw [he, Option.some.injEq] at hc
  exact List.not_mem_nil (hc ▸ hm)

end RealmStorage
