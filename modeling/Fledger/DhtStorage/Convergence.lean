import Fledger.DhtStorage.Cuckoos
import Fledger.DhtStorage.Durability
import Fledger.DhtStorage.Growth
import Mathlib.Algebra.BigOperators.Group.Multiset.Basic

namespace FloStorage

open MsgPack

theorem size_eq (fs : FloStorage) : fs.size = fs.flo.size + ToFromBytes.size fs.cuckoos +
    (Token.encodeInt fs.timeCreate).length + (Token.encodeInt fs.timeUpdate).length +
    (Token.encodeInt fs.timeRead).length + (Token.encodeInt fs.reads).length + 1 := by
  have hh : (Token.encodeLen 0x90 0xdc 0xdd 6).length = 1 := rfl
  simp only [size, Flo.size, ToFromBytes.size, toRmpBytes]
  rw [show (Serialize.toValue fs).encode = Token.encodeLen 0x90 0xdc 0xdd 6 ++
    Value.encodeArr [_, _, _, _, _, _] from rfl]
  simp only [Value.encode, Value.encodeArr, Token.encode, List.length_append, List.length_nil, hh]
  omega

-- An entry is not much larger than its flo, whenever it is stored.
theorem size_ofFlo_le (now : Int) (flo : Flo) : (ofFlo now flo).size ≤ flo.size + 14 := by
  have ht := Token.length_encodeInt_le now
  have hc : ToFromBytes.size ([] : List FloID) = 1 := rfl
  have hz : (Token.encodeInt 0).length = 1 := rfl
  simp only [size_eq, ofFlo, hc, hz]
  omega

theorem size_withCuckoo_le (fs : FloStorage) (cuckoo : FloID) :
    (fs.withCuckoo cuckoo).size ≤ fs.size + 68 := by
  unfold withCuckoo
  split
  case isFalse => omega
  case isTrue  =>
    have hc := ToFromBytes.size_concat_le fs.cuckoos cuckoo
    rw [ToFromBytes.size_u256] at hc
    simp only [size_eq]
    omega

theorem mem_cuckoos_withCuckoo {fs : FloStorage} {cuckoo c : FloID} :
    c ∈ (fs.withCuckoo cuckoo).cuckoos ↔ c ∈ fs.cuckoos ∨ c = cuckoo := by
  unfold withCuckoo
  split
  case isTrue     => simp
  case isFalse hc => exact ⟨.inl, fun h => h.elim id fun he => he ▸ not_not.mp hc⟩

end FloStorage

namespace RealmStorage

-- A call of `upsert_flo`, with the times it asks for.
structure Call where
  estimated : Int
  stored    : Int
  flo       : Flo

variable [Sha256] {s s' s₁ s₂ : RealmStorage} {id parent cuckoo : FloID} {f g flo : Flo}
  {flos : Multiset Flo} {call : Call} {calls calls' : List Call} {isNew : Bool}
  {estimated stored : Int}

def Call.Returns (call : Call) (s s' : RealmStorage) : Prop :=
  ∃ isNew, s.Upserts call.estimated call.stored call.flo s' isNew

-- One call after the other.
def UpsertsAll : RealmStorage → List Call → RealmStorage → Prop
  | s, [], s'            => s = s'
  | s, call :: calls, s' => ∃ s₁, call.Returns s s₁ ∧ UpsertsAll s₁ calls s'

def RoomForAll : RealmStorage → List Call → Prop
  | _, []            => True
  | s, call :: calls => s.Roomy call.flo ∧ ∀ s', call.Returns s s' → RoomForAll s' calls

-- In whatever order and at whatever times the flos come, none has to be refused or evicted.
def EnoughSpace (s : RealmStorage) (flos : Multiset Flo) : Prop :=
  ∀ calls : List Call, (calls.map Call.flo : Multiset Flo) = flos → s.RoomForAll calls

section Space

theorem Roomy.returns_iff (h : s.Roomy call.flo) :
    call.Returns s s' ↔ s' = s.taken call.estimated call.stored call.flo := by
  constructor
  case mp =>
    intro ⟨_, hu⟩
    exact h.upserts_eq hu
  case mpr =>
    intro he
    exact he ▸ upserts_taken h.size (h.taken ..)

-- The storage after all calls, if there is space for all flos.
def takenAll (s : RealmStorage) (calls : List Call) : RealmStorage :=
  calls.foldl (fun s call => s.taken call.estimated call.stored call.flo) s

theorem RoomForAll.upsertsAll (h : s.RoomForAll calls) : s.UpsertsAll calls (s.takenAll calls) := by
  induction calls generalizing s
  case nil => rfl
  case cons hi =>
    have hr := h.left.returns_iff.mpr rfl
    exact ⟨_, hr, hi (h.right _ hr)⟩

theorem Wf.size_adoptCuckoo_le (h : s.Wf) (flo : Flo) :
    (s.adoptCuckoo flo).size ≤ s.size + 68 := by
  unfold RealmStorage.adoptCuckoo
  split
  case h_2 => omega
  case h_1 parent _ =>
    have hs := h.size_storeCuckooId parent flo.floId
    have he : (s.storeCuckooId parent flo.floId).entrySize parent ≤ s.entrySize parent + 68 := by
      rw [entrySize, entrySize, lookup_storeCuckooId, if_pos rfl]
      cases s.flos.lookup parent
      case none    => simp
      case some fs => simpa using fs.size_withCuckoo_le flo.floId
    omega

-- What the storage grows by with a flo.
theorem Wf.size_taken_le (h : s.Wf) (estimated stored : Int) (flo : Flo) :
    (s.taken estimated stored flo).size ≤ s.size + (flo.size + 82) := by
  have ha := h.size_adoptCuckoo_le flo
  have hp := (h.adoptCuckoo flo).size_put stored flo
  have he := FloStorage.size_ofFlo_le stored flo
  unfold RealmStorage.taken
  dsimp only
  split <;> omega

theorem Wf.roomy (h : s.Wf) (ho : ¬s.oversized flo)
    (hs : s.size + (flo.size + 82) ≤ s.realmConfig.maxSpace) : s.Roomy flo where
  size      := ho
  taken _ _ := (h.size_taken_le ..).trans hs
  fresh hm estimated := by
    have ha := h.size_adoptCuckoo_le flo
    have he := FloStorage.size_ofFlo_le estimated flo
    have hm : flo.floId ∉ (s.adoptCuckoo flo).flos := mem_adoptCuckoo.not.mpr hm
    have hl := HashMap.not_mem_iff_lookup.mp hm
    simp only [accepts, hl, (frame_adoptCuckoo s flo).realmConfig, Bool.or_eq_true,
      decide_eq_true_eq]
    omega

-- There is enough space if all flos would fit in at once, with what the entries need besides.
theorem Wf.enoughSpace (h : s.Wf) (ho : ∀ flo ∈ flos, ¬s.oversized flo)
    (hs : s.size + (flos.map fun flo => flo.size + 82).sum ≤ s.realmConfig.maxSpace) :
    s.EnoughSpace flos := by
  intro calls hc
  induction calls generalizing s flos
  case nil => trivial
  case cons call calls hi =>
    subst hc
    have hr : s.Roomy call.flo := h.roomy (ho _ (by simp)) (by simp at hs; omega)
    refine ⟨hr, fun s' hret => ?_⟩
    cases hr.returns_iff.mp hret
    have hf := frame_taken s call.estimated call.stored call.flo
    have hle := h.size_taken_le call.estimated call.stored call.flo
    refine hi (h.taken ..) (fun flo hm => ?_) ?_ rfl
    case refine_1 =>
      rw [oversized, hf.realmConfig]
      exact ho flo (by simp at hm ⊢; exact .inr hm)
    case refine_2 =>
      rw [hf.realmConfig]
      simp at hs ⊢
      omega

end Space

section Versions

-- The flo which is stored under the id.
def storedFlo (s : RealmStorage) (id : FloID) : Option Flo :=
  (s.flos.lookup id).map FloStorage.flo

-- A version of the flo is stored already, or it is among those which come.
def IsVersion (s : RealmStorage) (id : FloID) (flos : Multiset Flo) (f : Flo) : Prop :=
  s.storedFlo id = some f ∨ f ∈ flos ∧ f.floId = id

structure IsLatest (s : RealmStorage) (id : FloID) (flos : Multiset Flo) (f : Flo) : Prop where
  isVersion : s.IsVersion id flos f
  le        : ∀ {g}, s.IsVersion id flos g → g.version ≤ f.version

-- What is stored in the end is one of the versions, and none of them is later.
structure Gathers (s : RealmStorage) (id : FloID) (flos : Multiset Flo) (s' : RealmStorage) :
    Prop where
  isVersion : ∀ {f}, s'.storedFlo id = some f → s.IsVersion id flos f
  covers    : ∀ {f}, s.IsVersion id flos f → ∃ g, s'.storedFlo id = some g ∧ f.version ≤ g.version

omit [Sha256] in
theorem storedFlo_eq_some :
    s.storedFlo id = some f ↔ ∃ fs, s.flos.lookup id = some fs ∧ fs.flo = f :=
  Option.map_eq_some_iff

theorem Gathers.refl (s : RealmStorage) (id : FloID) : s.Gathers id 0 s where
  isVersion hs := .inl hs
  covers hv    := by
    cases hv
    case inl hs => exact ⟨_, hs, UInt32.le_refl _⟩
    case inr hm => simp at hm

theorem Gathers.trans {flos' : Multiset Flo} (h₁ : s.Gathers id flos s₁)
    (h₂ : s₁.Gathers id flos' s₂) : s.Gathers id (flos + flos') s₂ where
  isVersion hs := by
    cases h₂.isVersion hs
    case inl hs =>
      cases h₁.isVersion hs
      case inl hs => exact .inl hs
      case inr hm => exact .inr ⟨Multiset.mem_add.mpr (.inl hm.left), hm.right⟩
    case inr hm => exact .inr ⟨Multiset.mem_add.mpr (.inr hm.left), hm.right⟩
  covers {f} hv := by
    have hcover (hv : s.IsVersion id flos f) :
        ∃ g, s₂.storedFlo id = some g ∧ f.version ≤ g.version := by
      have ⟨_, hs₁, hle₁⟩ := h₁.covers hv
      have ⟨g, hs₂, hle₂⟩ := h₂.covers (.inl hs₁)
      exact ⟨g, hs₂, UInt32.le_trans hle₁ hle₂⟩
    rcases hv with hs | ⟨hm, hid⟩
    · exact hcover (.inl hs)
    · cases Multiset.mem_add.mp hm
      case inl hm => exact hcover (.inr ⟨hm, hid⟩)
      case inr hm => exact h₂.covers (.inr ⟨hm, hid⟩)

theorem Roomy.gathers (h : s.Roomy flo) (hw : s.Wf) (hu : s.Upserts estimated stored flo s' isNew)
    (id : FloID) : s.Gathers id {flo} s' where
  isVersion hs := by
    have ⟨fs, hl, hf⟩ := storedFlo_eq_some.mp hs
    rcases hw.lookup_upserts hu hl with ⟨hid, hfs, _⟩ | ⟨fs', hl', he⟩
    · cases hfs
      exact .inr ⟨Multiset.mem_singleton.mpr hf.symm, hf ▸ hid.symm⟩
    · exact .inl <| storedFlo_eq_some.mpr ⟨fs', hl', he ▸ hf⟩
  covers hv := by
    rcases hv with hs | ⟨hm, hid⟩
    · have ⟨fs, hl, hf⟩ := storedFlo_eq_some.mp hs
      have ⟨fs', hl', hv⟩ := h.keeps hw hu hl
      exact ⟨fs'.flo, storedFlo_eq_some.mpr ⟨fs', hl', rfl⟩, hf ▸ hv⟩
    · cases Multiset.mem_singleton.mp hm
      have ⟨fs, hl, hv⟩ := h.stores hu
      exact ⟨fs.flo, storedFlo_eq_some.mpr ⟨fs, hid ▸ hl, rfl⟩, hv⟩

theorem UpsertsAll.gathers (h : s.UpsertsAll calls s') (hroom : s.RoomForAll calls) (hw : s.Wf)
    (id : FloID) : s.Gathers id (calls.map Call.flo) s' := by
  induction calls generalizing s
  case nil => exact h ▸ .refl s id
  case cons call calls hi =>
    have ⟨s₁, hret, hs⟩ := h
    have ⟨_, hu⟩ := hret
    exact (hroom.left.gathers hw hu id).trans <| hi hs (hroom.right s₁ hret) (hw.upserts hu)

theorem Gathers.isLatest (h : s.Gathers id flos s') (hs : s'.storedFlo id = some f) :
    s.IsLatest id flos f where
  isVersion := h.isVersion hs
  le hv     := by
    have ⟨g, hg, hle⟩ := h.covers hv
    cases hs.symm.trans hg
    exact hle

theorem Gathers.exists_of_storedFlo (h₁ : s.Gathers id flos s₁) (h₂ : s.Gathers id flos s₂)
    (hs : s₁.storedFlo id = some f) : ∃ g, s₂.storedFlo id = some g ∧ g.version = f.version := by
  have ⟨g, hg, hle⟩ := h₂.covers (h₁.isVersion hs)
  exact ⟨g, hg, UInt32.le_antisymm ((h₁.isLatest hs).le (h₂.isVersion hg)) hle⟩

-- The same versions leave the same version behind, ...
theorem Gathers.version_eq (h₁ : s.Gathers id flos s₁) (h₂ : s.Gathers id flos s₂) :
    (s₁.storedFlo id).map Flo.version = (s₂.storedFlo id).map Flo.version := by
  refine Option.ext fun v => ?_
  simp only [Option.map_eq_some_iff]
  constructor
  case mp =>
    intro ⟨f, hf, hv⟩
    have ⟨g, hg, he⟩ := h₁.exists_of_storedFlo h₂ hf
    exact ⟨g, hg, he.trans hv⟩
  case mpr =>
    intro ⟨f, hf, hv⟩
    have ⟨g, hg, he⟩ := h₂.exists_of_storedFlo h₁ hf
    exact ⟨g, hg, he.trans hv⟩

-- ... and the same flo, if there is only one of the latest version.
theorem Gathers.storedFlo_eq (h₁ : s.Gathers id flos s₁) (h₂ : s.Gathers id flos s₂)
    (hlatest : ∀ f g, s.IsLatest id flos f → s.IsLatest id flos g → f = g) :
    s₁.storedFlo id = s₂.storedFlo id := by
  refine Option.ext fun f => ?_
  constructor
  case mp =>
    intro hf
    have ⟨g, hg, _⟩ := h₁.exists_of_storedFlo h₂ hf
    exact hlatest g f (h₂.isLatest hg) (h₁.isLatest hf) ▸ hg
  case mpr =>
    intro hf
    have ⟨g, hg, _⟩ := h₂.exists_of_storedFlo h₁ hf
    exact hlatest g f (h₁.isLatest hg) (h₂.isLatest hf) ▸ hg

end Versions

section Cuckoos

-- Whenever a cuckoo of the flo comes, the latest version of the flo is there already.
def CuckoosLast (s : RealmStorage) (parent : FloID) (flos : List Flo) : Prop :=
  ∀ (before : List Flo) (flo : Flo) (after : List Flo), flos = before ++ flo :: after →
    flo.floConfig.cuckooParent = some parent → ∃ f, s.IsVersion parent before f ∧
      ∀ g ∈ flo :: after, g.floId = parent → g.version ≤ f.version

-- Among the flos is the cuckoo.
def Comes (flos : Multiset Flo) (parent cuckoo : FloID) : Prop :=
  ∃ f ∈ flos, f.floConfig.cuckooParent = some parent ∧ f.floId = cuckoo

-- Among the flos is a later version of the stored one.
def Superseded (s : RealmStorage) (parent : FloID) (flos : Multiset Flo) : Prop :=
  ∃ f, s.storedFlo parent = some f ∧ ∃ g ∈ flos, g.floId = parent ∧ f.version < g.version

omit [Sha256] in
theorem mem_iff_storedFlo : id ∈ s.flos ↔ ∃ f, s.storedFlo id = some f := by
  simp [HashMap.mem_iff_lookup, storedFlo_eq_some]

theorem isNew_iff_storedFlo (ho : ¬s.oversized flo) :
    s.IsNew flo ↔ ∀ f, s.storedFlo flo.floId = some f → f.version < flo.version := by
  simp [IsNew, ho, storedFlo_eq_some, FloStorage.version]

theorem Roomy.accepts_iff (h : s.Roomy flo) :
    (s.adoptCuckoo flo).accepts estimated flo = true ↔ s.IsNew flo := by
  rw [IsNew, and_iff_right h.size]
  cases hl : s.flos.lookup flo.floId
  case some => simp [accepts_adoptCuckoo hl]
  case none => simp [h.fresh (HashMap.not_mem_iff_lookup.mpr hl) estimated]

theorem Roomy.not_linked_of_isNew (h : s.Roomy flo) (hu : s.Upserts estimated stored flo s' isNew)
    (hn : s.IsNew flo) (cuckoo : FloID) : ¬s'.Linked flo.floId cuckoo := by
  rw [linked_iff, h.upserts_eq hu, RealmStorage.taken]
  simp [h.accepts_iff.mpr hn, lookup_put, FloStorage.ofFlo]

theorem Roomy.lookup_of_not_isNew (h : s.Roomy flo)
    (hu : s.Upserts estimated stored flo s' isNew) (hn : flo.floId = id → ¬s.IsNew flo) :
    s'.flos.lookup id = (s.adoptCuckoo flo).flos.lookup id := by
  rw [h.upserts_eq hu, RealmStorage.taken]
  split
  case isFalse     => rfl
  case isTrue hacc => rw [lookup_put, if_neg fun he => hn he.symm (h.accepts_iff.mp hacc)]

theorem linked_adoptCuckoo : (s.adoptCuckoo flo).Linked parent cuckoo ↔ s.Linked parent cuckoo ∨
    parent ∈ s.flos ∧ flo.floConfig.cuckooParent = some parent ∧ flo.floId = cuckoo := by
  rw [linked_iff, linked_iff, lookup_adoptCuckoo, HashMap.mem_iff_lookup]
  split
  case isFalse hp => simp [hp]
  case isTrue hp  =>
    cases s.flos.lookup parent
    case none    => simp
    case some fs => simp [FloStorage.mem_cuckoos_withCuckoo, hp, eq_comm (b := cuckoo)]

theorem CuckoosLast.tail {flos : List Flo} (h : s.CuckoosLast parent (flo :: flos))
    (hg : s.Gathers parent {flo} s') : s'.CuckoosLast parent flos := by
  intro before flo' after he hp
  obtain ⟨f, hv, hle⟩ := h (flo :: before) flo' after (by rw [he, List.cons_append]) hp
  have hcover (hv : s.IsVersion parent {flo} f) : ∃ g, s'.IsVersion parent before g ∧
      ∀ g' ∈ flo' :: after, g'.floId = parent → g'.version ≤ g.version := by
    have ⟨g, hs, hfg⟩ := hg.covers hv
    exact ⟨g, .inl hs, fun g' hm hid => UInt32.le_trans (hle g' hm hid) hfg⟩
  rcases hv with hs | ⟨hm, hid⟩
  · exact hcover (.inl hs)
  · rcases List.mem_cons.mp (Multiset.mem_coe.mp hm) with rfl | hm
    · exact hcover (.inr ⟨Multiset.mem_singleton_self _, hid⟩)
    · exact ⟨f, .inr ⟨Multiset.mem_coe.mpr hm, hid⟩, hle⟩

-- When a cuckoo comes, its parent is stored, and nothing that follows is a later version of it.
theorem CuckoosLast.storedFlo {flos : List Flo} (h : s.CuckoosLast parent (flo :: flos))
    (hp : flo.floConfig.cuckooParent = some parent) : ∃ f, s.storedFlo parent = some f ∧
      ∀ g ∈ flo :: flos, g.floId = parent → g.version ≤ f.version := by
  obtain ⟨f, hv, hle⟩ := h [] flo flos rfl hp
  rcases hv with hs | ⟨hm, _⟩
  · exact ⟨f, hs, hle⟩
  · exact absurd hm (Multiset.notMem_zero f)

theorem comes_cons {flos : List Flo} : Comes ↑(flo :: flos) parent cuckoo ↔
    (flo.floConfig.cuckooParent = some parent ∧ flo.floId = cuckoo) ∨ Comes flos parent cuckoo := by
  simp [Comes]

omit [Sha256] in
theorem Linked.storedFlo (h : s.Linked parent cuckoo) : ∃ f, s.storedFlo parent = some f := by
  have ⟨fs, hl, _⟩ := linked_iff.mp h
  exact ⟨fs.flo, storedFlo_eq_some.mpr ⟨fs, hl, rfl⟩⟩

theorem superseded_of_isNew {flos : List Flo} (hn : s.IsNew flo)
    (hs : s.storedFlo flo.floId = some f) : s.Superseded flo.floId ↑(flo :: flos) :=
  ⟨f, hs, flo, by simp, rfl, (isNew_iff_storedFlo hn.left).mp hn f hs⟩

theorem superseded_cons_of_not_isNew {flos : List Flo} (h : s.Roomy flo)
    (hn : flo.floId = parent → ¬s.IsNew flo) :
    s.Superseded parent ↑(flo :: flos) ↔ s.Superseded parent flos := by
  constructor
  case mpr =>
    intro ⟨f, hs, g, hm, hg⟩
    exact ⟨f, hs, g, by simp at hm ⊢; exact .inr hm, hg⟩
  case mp =>
    intro ⟨f, hs, g, hm, hid, hv⟩
    rcases List.mem_cons.mp (Multiset.mem_coe.mp hm) with rfl | hm
    · refine absurd ((isNew_iff_storedFlo h.size).mpr fun f' hs' => ?_) (hn hid)
      cases hs.symm.trans (hid ▸ hs')
      exact hv
    · exact ⟨f, hs, g, Multiset.mem_coe.mpr hm, hid, hv⟩

-- A new version starts without cuckoos. As no cuckoo comes before it, none is lost.
theorem Roomy.linked_iff_of_isNew (h : s.Roomy flo)
    (hu : s.Upserts estimated stored flo s' isNew) (hn : s.IsNew flo) {flos : List Flo}
    (hlast : s.CuckoosLast flo.floId (flo :: flos)) (cuckoo : FloID) :
    Comes flos flo.floId cuckoo ∨
        s'.Linked flo.floId cuckoo ∧ ¬s'.Superseded flo.floId flos ↔
      Comes ↑(flo :: flos) flo.floId cuckoo ∨
        s.Linked flo.floId cuckoo ∧ ¬s.Superseded flo.floId ↑(flo :: flos) := by
  have hlinked := h.not_linked_of_isNew hu hn cuckoo
  have hparent : flo.floConfig.cuckooParent ≠ some flo.floId := by
    intro hp
    have ⟨f, hs, hle⟩ := hlast.storedFlo hp
    have hlt := (isNew_iff_storedFlo h.size).mp hn f hs
    exact UInt32.not_lt.mpr (hle flo List.mem_cons_self rfl) hlt
  have hlost : ¬(s.Linked flo.floId cuckoo ∧ ¬s.Superseded flo.floId ↑(flo :: flos)) := by
    intro ⟨hl, hsuper⟩
    have ⟨_, hs⟩ := hl.storedFlo
    exact hsuper <| superseded_of_isNew hn hs
  simp only [comes_cons, hparent, hlinked, hlost, false_and, false_or, or_false]

-- Otherwise the flo can only be a cuckoo itself, and it is recorded as such.
theorem Roomy.linked_iff_of_not_isNew (h : s.Roomy flo)
    (hu : s.Upserts estimated stored flo s' isNew) (hn : flo.floId = parent → ¬s.IsNew flo)
    {flos : List Flo} (hlast : s.CuckoosLast parent (flo :: flos)) (cuckoo : FloID) :
    Comes flos parent cuckoo ∨ s'.Linked parent cuckoo ∧ ¬s'.Superseded parent flos ↔
      Comes ↑(flo :: flos) parent cuckoo ∨
        s.Linked parent cuckoo ∧ ¬s.Superseded parent ↑(flo :: flos) := by
  have hl := h.lookup_of_not_isNew hu hn
  have hstored : s'.storedFlo parent = s.storedFlo parent := by
    rw [RealmStorage.storedFlo, hl, flo_adoptCuckoo, RealmStorage.storedFlo]
  have hlinked : s'.Linked parent cuckoo ↔ s.Linked parent cuckoo ∨ parent ∈ s.flos ∧
      flo.floConfig.cuckooParent = some parent ∧ flo.floId = cuckoo := by
    rw [linked_iff, hl, ← linked_iff, linked_adoptCuckoo]
  have hsuper : s'.Superseded parent flos ↔ s.Superseded parent flos := by
    rw [Superseded, hstored, Superseded]
  have hcuckoo (hp : flo.floConfig.cuckooParent = some parent) :
      parent ∈ s.flos ∧ ¬s.Superseded parent flos := by
    have ⟨f, hs, hle⟩ := hlast.storedFlo hp
    refine ⟨mem_iff_storedFlo.mpr ⟨f, hs⟩, fun ⟨f', hs', g, hm, hid, hv⟩ => ?_⟩
    cases hs.symm.trans hs'
    exact UInt32.not_lt.mpr (hle g (List.mem_cons_of_mem _ <| Multiset.mem_coe.mp hm) hid) hv
  rw [comes_cons, superseded_cons_of_not_isNew h hn, hlinked, hsuper]
  by_cases hp : flo.floConfig.cuckooParent = some parent
  case pos => simp [hp, hcuckoo hp, or_assoc, or_comm, or_left_comm]
  case neg => simp [hp]

theorem UpsertsAll.linked_iff (h : s.UpsertsAll calls s') (hroom : s.RoomForAll calls) (hw : s.Wf)
    (hlast : s.CuckoosLast parent (calls.map Call.flo)) (cuckoo : FloID) :
    s'.Linked parent cuckoo ↔ Comes (calls.map Call.flo) parent cuckoo ∨
      s.Linked parent cuckoo ∧ ¬s.Superseded parent (calls.map Call.flo) := by
  induction calls generalizing s
  case nil => cases h; simp [Comes, Superseded]
  case cons call calls hi =>
    have ⟨s₁, hret, hs⟩ := h
    have ⟨_, hu⟩ := hret
    have hg := hroom.left.gathers hw hu parent
    rw [hi hs (hroom.right s₁ hret) (hw.upserts hu) (hlast.tail hg)]
    by_cases hn : call.flo.floId = parent ∧ s.IsNew call.flo
    case pos =>
      obtain ⟨rfl, hn⟩ := hn
      exact hroom.left.linked_iff_of_isNew hu hn hlast cuckoo
    case neg =>
      exact hroom.left.linked_iff_of_not_isNew hu (fun hid hnew => hn ⟨hid, hnew⟩) hlast cuckoo

end Cuckoos

-- Whatever the order of the flos is, the same ids are stored in the same versions. The flos are
-- the same unless there are several of the latest version, and so are the cuckoos of a flo unless
-- one of them comes before the latest version of the flo.
theorem order_independent (h : Reachable s) (hspace : s.EnoughSpace flos)
    (hc : (calls.map Call.flo : Multiset Flo) = flos)
    (hc' : (calls'.map Call.flo : Multiset Flo) = flos) :
    (∃ s₁, s.UpsertsAll calls s₁) ∧ (∃ s₂, s.UpsertsAll calls' s₂) ∧
    ∀ s₁ s₂, s.UpsertsAll calls s₁ → s.UpsertsAll calls' s₂ → ∀ id,
      (s₁.storedFlo id).map Flo.version = (s₂.storedFlo id).map Flo.version ∧
      ((∀ f g, s.IsLatest id flos f → s.IsLatest id flos g → f = g) →
        s₁.storedFlo id = s₂.storedFlo id) ∧
      (s.CuckoosLast id (calls.map Call.flo) → s.CuckoosLast id (calls'.map Call.flo) →
        ∀ cuckoo, s₁.Linked id cuckoo ↔ s₂.Linked id cuckoo) := by
  have hroom := hspace calls hc
  have hroom' := hspace calls' hc'
  refine ⟨⟨_, hroom.upsertsAll⟩, ⟨_, hroom'.upsertsAll⟩, fun s₁ s₂ hu hu' id => ?_⟩
  have hg := hc ▸ hu.gathers hroom h.wf id
  have hg' := hc' ▸ hu'.gathers hroom' h.wf id
  refine ⟨hg.version_eq hg', hg.storedFlo_eq hg', fun hlast hlast' cuckoo => ?_⟩
  rw [hu.linked_iff hroom h.wf hlast, hu'.linked_iff hroom' h.wf hlast', hc, hc']

end RealmStorage

namespace RealmStorage

attribute [local instance] Sha256.rolling

-- The same version of the page as `editedPage`, with other data.
def otherPage : Flo :=
  { page with dataVersion := 1, data := [3] }

-- A flo which is a cuckoo of the page.
def answer : Flo :=
  { comment with floConfig := { cuckoo := .parent page.floId } }

def calling (flos : List Flo) : List Call :=
  flos.map fun flo => { estimated := 0, stored := 0, flo }

theorem flo_calling (flos : List Flo) : ((calling flos).map Call.flo : Multiset Flo) = flos := by
  simp [calling, Function.comp_def]

theorem roomy_enoughSpace {f g : Flo} (hf : ¬roomy.oversized f) (hg : ¬roomy.oversized g)
    (hs : roomy.size + ((f.size + 82) + (g.size + 82)) ≤ roomy.realmConfig.maxSpace) :
    roomy.EnoughSpace ↑[f, g] := by
  have hw : roomy.Wf := wf_new ..
  refine hw.enoughSpace (fun flo hm => ?_) (by simpa using hs)
  have hm : flo = f ∨ flo = g := by simpa using hm
  exact hm.elim (· ▸ hf) (· ▸ hg)

theorem pages_enoughSpace : roomy.EnoughSpace ↑[editedPage, otherPage] :=
  roomy_enoughSpace (by decide +kernel) (by decide +kernel) (by decide +kernel)

theorem answer_enoughSpace : roomy.EnoughSpace ↑[page, answer] :=
  roomy_enoughSpace (by decide +kernel) (by decide +kernel) (by decide +kernel)

theorem upsertsAll_calling {flos : List Flo} {flos' : Multiset Flo}
    (h : roomy.EnoughSpace flos') (he : ↑flos = flos') :
    roomy.UpsertsAll (calling flos) (roomy.takenAll (calling flos)) :=
  (h _ <| (flo_calling flos).trans he).upsertsAll

theorem coe_swap (f g : Flo) : (↑[g, f] : Multiset Flo) = ↑[f, g] :=
  Multiset.coe_eq_coe.mpr (.swap ..)

theorem order_independent_pages :
    (∃ s₁, roomy.UpsertsAll (calling [editedPage, otherPage]) s₁) ∧
    (∃ s₂, roomy.UpsertsAll (calling [otherPage, editedPage]) s₂) ∧
    ∀ s₁ s₂, roomy.UpsertsAll (calling [editedPage, otherPage]) s₁ →
      roomy.UpsertsAll (calling [otherPage, editedPage]) s₂ → ∀ id,
      (s₁.storedFlo id).map Flo.version = (s₂.storedFlo id).map Flo.version ∧
      ((∀ f g, roomy.IsLatest id ↑[editedPage, otherPage] f →
          roomy.IsLatest id ↑[editedPage, otherPage] g → f = g) →
        s₁.storedFlo id = s₂.storedFlo id) ∧
      (roomy.CuckoosLast id ((calling [editedPage, otherPage]).map Call.flo) →
        roomy.CuckoosLast id ((calling [otherPage, editedPage]).map Call.flo) →
        ∀ cuckoo, s₁.Linked id cuckoo ↔ s₂.Linked id cuckoo) :=
  order_independent (.new ..) pages_enoughSpace (flo_calling _) <|
    (flo_calling _).trans (coe_swap ..)

-- The first one of two flos with the same version stays, and a cuckoo which comes before its parent
-- is not recorded.
theorem roomy_order_dependent :
    (roomy.EnoughSpace ↑[editedPage, otherPage] ∧ editedPage.realm = roomy.realmId ∧
      otherPage.realm = roomy.realmId ∧ ∃ s₁ s₂,
      roomy.UpsertsAll (calling [editedPage, otherPage]) s₁ ∧
      roomy.UpsertsAll (calling [otherPage, editedPage]) s₂ ∧
      (s₁.storedFlo page.floId).map Flo.data = some [2] ∧
      (s₂.storedFlo page.floId).map Flo.data = some [3]) ∧
    (roomy.EnoughSpace ↑[page, answer] ∧ page.realm = roomy.realmId ∧
      answer.realm = roomy.realmId ∧ ∃ s₁ s₂,
      roomy.UpsertsAll (calling [page, answer]) s₁ ∧ roomy.UpsertsAll (calling [answer, page]) s₂ ∧
      s₁.getCuckooIds page.floId = some [answer.floId] ∧ s₂.getCuckooIds page.floId = some []) := by
  constructor
  case left =>
    refine ⟨pages_enoughSpace, rfl, rfl, _, _, upsertsAll_calling pages_enoughSpace rfl,
      upsertsAll_calling pages_enoughSpace (coe_swap ..), ?_, ?_⟩ <;> decide +kernel
  case right =>
    refine ⟨answer_enoughSpace, rfl, rfl, _, _, upsertsAll_calling answer_enoughSpace rfl,
      upsertsAll_calling answer_enoughSpace (coe_swap ..), ?_, ?_⟩ <;> decide +kernel

end RealmStorage
