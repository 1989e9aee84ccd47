import Fledger.DhtStorage.RealmView
import Fledger.Lib.Reorder

open BlobFamily

namespace FloWrapper

variable {α : Type} [Sha256] {f g : α → α} {fw fw' fw'' : FloWrapper α}

theorem Edited.refl (fw : FloWrapper α) : fw.Edited (fun p => p) fw :=
  ⟨rfl, rfl, rfl, rfl⟩

theorem Edited.trans (h : fw.Edited f fw') (h' : fw'.Edited g fw'') :
    fw.Edited (fun p => g (f p)) fw'' where
  object := by rw [h'.object, h.object]
  floId  := h'.floId.trans h.floId
  realm  := h'.realm.trans h.realm
  cond   := h'.cond.trans h.cond

end FloWrapper

namespace RealmView

namespace RealmStorage

variable {α : Type} [Sha256] {s s' s'' : RealmStorage α} {f g : BlobID → α → α}

-- Every flo is stored under its own id.
def Keyed (s : RealmStorage α) : Prop :=
  ∀ id fw, s.storage.lookup id = some fw → fw.blobId = id

-- Each blob has been edited by what belongs to its id, and no blob has been added.
def Revised (f : BlobID → α → α) (s s' : RealmStorage α) : Prop :=
  ∀ id, Option.Rel (fun fw fw' => fw.Edited (f id) fw') (s.storage.lookup id) (s'.storage.lookup id)

-- All storages which are ever built.
inductive Reached : RealmStorage α → Prop
  | new {realm root} : Reached { realm, root, storage := ∅, cuckoos := ∅ }
  | updateCuckoos {s bid flos} : Reached s → Reached (s.updateCuckoos bid flos)
  | insert {s fw} : Reached s → Reached (s.insert fw)

theorem Keyed.insert (h : s.Keyed) (fw : FloWrapper α) : (s.insert fw).Keyed := by
  intro id fw' hl
  rw [lookup_insert] at hl
  split at hl
  case isTrue hi => exact Option.some.inj hl ▸ hi.symm
  case isFalse   => exact h id fw' hl

theorem Keyed.addCuckoo (h : s.Keyed) (bid blobId : BlobID) : (s.addCuckoo bid blobId).Keyed := by
  rw [RealmStorage.addCuckoo]
  split <;> exact h

theorem Keyed.updateCuckoos (h : s.Keyed) (bid : BlobID) (flos : List (FloWrapper α)) :
    (s.updateCuckoos bid flos).Keyed := by
  induction flos generalizing s
  case nil              => exact h
  case cons flo flos hi =>
    rw [RealmStorage.updateCuckoos, List.foldl_cons]
    refine hi ?_
    dsimp only
    split
    case isTrue  => exact h.insert flo
    case isFalse => exact (h.insert flo).addCuckoo bid flo.blobId

theorem reached_fromRoot (realm : RealmID) (root : BlobID) (flos : List (FloWrapper α)) :
    (fromRoot realm root flos).Reached :=
  .updateCuckoos .new

theorem Reached.keyed (h : s.Reached) : s.Keyed := by
  induction h
  case new                => exact nofun
  case updateCuckoos hi   => exact hi.updateCuckoos _ _
  case insert hi          => exact hi.insert _

theorem Revised.refl (s : RealmStorage α) : s.Revised (fun _ p => p) s := by
  intro id
  cases s.storage.lookup id
  case none    => exact .none
  case some fw => exact .some (.refl fw)

theorem Revised.trans (h : s.Revised f s') (h' : s'.Revised g s'') :
    s.Revised (fun id p => g id (f id p)) s'' := by
  intro id
  have h := h id
  have h' := h' id
  generalize s.storage.lookup id = o, s'.storage.lookup id = o', s''.storage.lookup id = o''
    at h h' ⊢
  cases h
  case none   =>
    cases h'
    case none => exact .none
  case some h =>
    cases h'
    case some h' => exact .some (h.trans h')

theorem Revised.exists_lookup (h : s.Revised f s') {id : BlobID} {fw' : FloWrapper α}
    (hl : s'.storage.lookup id = some fw') :
    ∃ fw, s.storage.lookup id = some fw ∧ fw.Edited (f id) fw' := by
  have h := h id
  rw [hl] at h
  generalize s.storage.lookup id = o at h
  cases h
  case some fw h => exact ⟨fw, rfl, h⟩

theorem Revised.keyed (h : s.Revised f s') (hk : s.Keyed) : s'.Keyed := by
  intro id fw' hl
  obtain ⟨fw, hl, he⟩ := h.exists_lookup hl
  exact he.floId.trans (hk id fw hl)

theorem revised_insert (hk : s.Keyed) {id : BlobID} {fw fw' : FloWrapper α} {e : α → α}
    (hl : s.storage.lookup id = some fw) (he : fw.Edited e fw') :
    s.Revised (fun i => if i = id then e else fun p => p) (s.insert fw') := by
  have hi : fw'.blobId = id := he.floId.trans (hk id fw hl)
  intro i
  rw [lookup_insert, hi]
  dsimp only
  split
  case isTrue h  => exact h ▸ hl ▸ .some he
  case isFalse   =>
    cases s.storage.lookup i
    case none    => exact .none
    case some fw => exact .some (.refl fw)

theorem revised_of_lookup_eq_none {id : BlobID} {e : α → α} (hl : s.storage.lookup id = none) :
    s.Revised (fun i => if i = id then e else fun p => p) s := by
  intro i
  dsimp only
  split
  case isTrue hi =>
    rw [hi, hl]
    exact .none
  case isFalse   => exact Revised.refl s i

end RealmStorage

section

variable [Sha256] [FromRmpBytes Verifier] [FromRmpBytes BadgeCond] {env : Env} {v v' : RealmView}
  {fw fw' page newPage : FloBlobPage} {id pid : BlobID} {pids : List BlobID} {c : Condition}
  {f edit : BlobPage → BlobPage} {signer : Signer}

-- Whatever the condition of the page is resolved to, the signer is enough for it.
def Env.CanEdit [Ed25519] (env : Env) (signer : Signer) (fw : FloBlobPage) : Prop :=
  ∀ n c, (env.dht n).convert fw.flo.realm env.fuel fw.flo.cond = some c → c.OpenTo signer

theorem convert_eq_ok : v.convert env fw = .ok (c, v') ↔
    (env.dht v.calls).convert fw.flo.realm env.fuel fw.flo.cond = some c ∧ v.call = v' := by
  rw [convert]
  cases (env.dht v.calls).convert fw.flo.realm env.fuel fw.flo.cond <;> simp

omit [FromRmpBytes Verifier] [FromRmpBytes BadgeCond] in
theorem storePage_pages (h : v.storePage env page = .ok v') : v'.pages = v.pages.insert page := by
  rw [storePage] at h
  split at h
  case isTrue  => exact Outcome.pure_eq_ok.mp h ▸ rfl
  case isFalse => cases h

variable [Target] [Ed25519]

-- The parent is edited, if it is stored.
theorem updateChildLink_revised (hc : Ed25519.Correct ‹_›) (hk : v.pages.Keyed)
    (ho : ∀ fw, v.pages.storage.lookup pid = some fw → env.CanEdit signer fw)
    (h : updateChildLink env f [signer] v pid = .ok v') :
    v.pages.Revised (fun i => if i = pid then f else fun p => p) v'.pages := by
  rw [updateChildLink] at h
  cases hl : v.pages.storage.lookup pid
  case none        =>
    rw [hl] at h
    have he := Outcome.pure_eq_ok.mp h
    exact he ▸ RealmStorage.revised_of_lookup_eq_none hl
  case some parent =>
    rw [hl] at h
    obtain ⟨⟨cond, v₁⟩, hv, h⟩ := Outcome.bind_eq_ok.mp h
    obtain ⟨hd, rfl⟩ := convert_eq_ok.mp hv
    have ho := ho parent hl _ _ hd
    have he : ∃ newParent, parent.editDataSigners cond f [signer] = .ok newParent :=
      FloWrapper.exists_editDataSigners hc ho
    obtain ⟨newParent, he⟩ := he
    simp only [ho.canSigners, he, Except.mapError, Outcome.ok_bind, if_true] at h
    have hs := storePage_pages <| Outcome.mapError_eq_ok.mp h
    rw [hs]
    exact RealmStorage.revised_insert hk hl <| FloWrapper.edited_of_editDataSigners he

omit [Target] in
theorem Env.CanEdit.of_edited (h : env.CanEdit signer fw) (he : fw.Edited f fw') :
    env.CanEdit signer fw' := by
  intro n c hc
  rw [he.realm, he.cond] at hc
  exact h n c hc

-- Each of the parents is edited once.
theorem foldlM_updateChildLink_revised (hc : Ed25519.Correct ‹_›) (hn : pids.Nodup)
    (hk : v.pages.Keyed)
    (ho : ∀ pid ∈ pids, ∀ fw, v.pages.storage.lookup pid = some fw → env.CanEdit signer fw)
    (h : pids.foldlM (updateChildLink env f [signer]) v = .ok v') :
    v.pages.Revised (fun i => if i ∈ pids then f else fun p => p) v'.pages := by
  induction pids generalizing v
  case nil              =>
    have he := Outcome.pure_eq_ok.mp h
    subst he
    simpa using RealmStorage.Revised.refl v.pages
  case cons pid pids hi =>
    rw [List.foldlM_cons] at h
    obtain ⟨v₁, h₁, h⟩ := Outcome.bind_eq_ok.mp h
    obtain ⟨hp, hn⟩ := List.nodup_cons.mp hn
    have hr := updateChildLink_revised hc hk (ho pid List.mem_cons_self) h₁
    have hs := hi hn (hr.keyed hk) (fun i hm fw hl => ?edit) h
    case edit =>
      obtain ⟨fw₀, hl, he⟩ := hr.exists_lookup hl
      exact (ho i (List.mem_cons_of_mem _ hm) fw₀ hl).of_edited he
    have hf : (fun i p => (if i ∈ pids then f else fun p => p)
        ((if i = pid then f else fun p => p) p)) =
          fun i => if i ∈ pid :: pids then f else fun p => p := by
      funext i p
      by_cases hi : i = pid
      case pos => simp [hi, hp]
      case neg => simp [hi]
    exact hf ▸ hr.trans hs

theorem updateChildLinks_revised (hc : Ed25519.Correct ‹_›) {before after : List BlobID}
    (hn : before.Nodup) (hk : v.pages.Keyed)
    (ho : ∀ pid ∈ before, ∀ fw, v.pages.storage.lookup pid = some fw → env.CanEdit signer fw)
    (h : v.updateChildLinks env before after f [signer] = .ok v') :
    v.pages.Revised (fun i => if i ∈ before ∧ i ∉ after then f else fun p => p) v'.pages := by
  have hp := (env.order (before.filter (· ∉ after))).2
  have hm {i : BlobID} :
      i ∈ (env.order (before.filter (· ∉ after))).1 ↔ i ∈ before ∧ i ∉ after := by
    rw [hp.mem_iff, List.mem_filter, decide_eq_true_eq]
  have hr := foldlM_updateChildLink_revised hc (hp.nodup_iff.mpr <| hn.filter _) hk
    (fun i hi => ho i (hm.mp hi).left) h
  simpa only [hm] using hr

-- What the update of a page makes of the page with the id `i`.
def relink (id : BlobID) (edit : BlobPage → BlobPage) (before after : List BlobID) (i : BlobID)
    (p : BlobPage) : BlobPage :=
  let p := if i = id then edit p else p
  let p := if i ∈ before ∧ i ∉ after then rmChild id p else p
  if i ∈ after ∧ i ∉ before then addChild id (rmChild id p) else p

omit [Target] in
theorem canEdit_of_revised {g : BlobID → BlobPage → BlobPage}
    (hr : v.pages.Revised g v'.pages)
    (ho : ∀ fw, v.pages.storage.lookup pid = some fw → env.CanEdit signer fw) (fw : FloBlobPage)
    (hl : v'.pages.storage.lookup pid = some fw) : env.CanEdit signer fw := by
  obtain ⟨fw₀, hl, he⟩ := hr.exists_lookup hl
  exact (ho fw₀ hl).of_edited he

-- The page is edited and stored, and then the parents which it leaves and those which it joins.
theorem exists_updateChildLinks {signers : List Signer}
    (hp : v.pages.storage.lookup id = some page)
    (h : v.updatePage env id edit signers = .ok (v', newPage)) :
    page.Edited edit newPage ∧ ∃ v₁ v₂ : RealmView, v₁.pages = v.pages.insert newPage ∧
      v₁.updateChildLinks env (getParents page).dedup (getParents newPage).dedup (rmChild id)
        signers = .ok v₂ ∧
      v₂.updateChildLinks env (getParents newPage).dedup (getParents page).dedup
        (fun pb => addChild id (rmChild id pb)) signers = .ok v' := by
  rw [updatePage, hp] at h
  obtain ⟨⟨cond, v₀⟩, hv, h⟩ := Outcome.bind_eq_ok.mp h
  obtain ⟨page', he, h⟩ := Outcome.bind_eq_ok.mp h
  obtain ⟨v₁, hs, h⟩ := Outcome.bind_eq_ok.mp h
  obtain ⟨v₂, hb, h⟩ := Outcome.bind_eq_ok.mp h
  obtain ⟨v₃, ha, h⟩ := Outcome.bind_eq_ok.mp h
  cases Outcome.pure_eq_ok.mp h
  obtain ⟨_, rfl⟩ := convert_eq_ok.mp hv
  have he := FloWrapper.edited_of_editDataSigners <| Outcome.mapError_eq_ok.mp he
  have hs : v₁.pages = v.call.pages.insert newPage := storePage_pages hs
  exact ⟨he, v₁, v₂, hs, hb, ha⟩

theorem updatePage_revised (hc : Ed25519.Correct ‹_›) (hk : v.pages.Keyed)
    (hp : v.pages.storage.lookup id = some page)
    (ho : ∀ pid, pid ∈ getParents page ∨ pid ∈ getParents (edit page.object) →
      ∀ fw, v.pages.storage.lookup pid = some fw → env.CanEdit signer fw)
    (h : v.updatePage env id edit [signer] = .ok (v', newPage)) :
    v.pages.Revised (relink id edit (getParents page) (getParents (edit page.object)))
      v'.pages := by
  obtain ⟨he, v₁, v₂, hs, hb, ha⟩ := exists_updateChildLinks hp h
  have hpp : getParents newPage = getParents (edit page.object) :=
    congrArg (getParents (α := BlobPage)) he.object
  have h₁ : v.pages.Revised _ v₁.pages := hs ▸ RealmStorage.revised_insert hk hp he
  have h₂ := updateChildLinks_revised hc (List.nodup_dedup _) (h₁.keyed hk)
    (fun pid hm => canEdit_of_revised h₁ <| ho pid <| .inl <| List.mem_dedup.mp hm) hb
  have h₁₂ := h₁.trans h₂
  have h₃ := updateChildLinks_revised hc (List.nodup_dedup _) (h₁₂.keyed hk)
    (fun pid hm => canEdit_of_revised h₁₂ <| ho pid <| .inr <| hpp ▸ List.mem_dedup.mp hm) ha
  have hr : relink id edit (getParents page) (getParents (edit page.object)) = fun i p =>
      (if i ∈ (getParents newPage).dedup ∧ i ∉ (getParents page).dedup then
          fun pb => addChild id (rmChild id pb) else fun p => p)
        ((if i ∈ (getParents page).dedup ∧ i ∉ (getParents newPage).dedup then rmChild id
            else fun p => p)
          ((if i = id then edit else fun p => p) p)) := by
    funext i p
    simp only [relink, hpp, List.mem_dedup]
    split_ifs <;> rfl
  exact hr ▸ h₁₂.trans h₃

section

variable {before after : List BlobID} {p : BlobPage} {i : BlobID}

omit [Sha256] [FromRmpBytes Verifier] [FromRmpBytes BadgeCond] [Target] [Ed25519]

theorem getParents_relink : getParents (relink id edit before after i p) =
    getParents (if i = id then edit p else p) := by
  simp only [relink]
  split_ifs <;> simp

-- A parent which is left or joined loses the page, and one which is joined gets it once.
theorem getChildren_relink (he : i = id → getChildren (edit p) = getChildren p) :
    getChildren (relink id edit before after i p) =
      if i ∈ before ↔ i ∈ after then getChildren p
      else if i ∈ before then (getChildren p).filter (· ≠ id)
      else (getChildren p).filter (· ≠ id) ++ [id] := by
  have hc : getChildren (if i = id then edit p else p) = getChildren p := by
    split
    case isTrue h => exact he h
    case isFalse  => rfl
  by_cases hb : i ∈ before <;> by_cases ha : i ∈ after <;>
    simp [relink, hb, ha, getChildren_addChild, getChildren_rmChild, hc]

theorem mem_getChildren_relink (he : i = id → getChildren (edit p) = getChildren p)
    (h : id ∈ getChildren p ↔ i ∈ before) :
    id ∈ getChildren (relink id edit before after i p) ↔ i ∈ after := by
  rw [getChildren_relink he]
  by_cases hb : i ∈ before <;> by_cases ha : i ∈ after <;> simp [h, hb, ha]

theorem count_getChildren_relink (he : i = id → getChildren (edit p) = getChildren p) :
    (getChildren (relink id edit before after i p)).count id ≤ 1 ∨
      (getChildren (relink id edit before after i p)).count id = (getChildren p).count id := by
  have hf : ((getChildren p).filter (· ≠ id)).count id = 0 := by
    simp [List.count_eq_zero]
  rw [getChildren_relink he]
  split_ifs
  · exact .inr rfl
  · exact .inl (by omega)
  · refine .inl ?_
    rw [List.count_append, hf]
    simp

end

end

-- Each stored page lists the one with this id among its children if that one lists it among its
-- parents.
def RealmStorage.Linked (s : RealmStorage BlobPage) (id : BlobID) : Prop :=
  ∀ page, s.storage.lookup id = some page → ∀ pid parent, s.storage.lookup pid = some parent →
    (id ∈ getChildren parent ↔ pid ∈ getParents page)

section

variable [Sha256] {s s' : RealmStorage BlobPage} {id : BlobID} {page : FloBlobPage}
  {before after : List BlobID} {edit : BlobPage → BlobPage}

theorem linked_of_revised (hp : s.storage.lookup id = some page) (hl : s.Linked id)
    (he : getChildren (edit page.object) = getChildren page)
    (hr : s.Revised (relink id edit (getParents page) (getParents (edit page.object))) s') :
    s'.Linked id := by
  intro page' hp' pid parent' hl'
  obtain ⟨page₀, hp₀, hpe⟩ := hr.exists_lookup hp'
  obtain ⟨parent, hlp, hle⟩ := hr.exists_lookup hl'
  cases hp.symm.trans hp₀
  have hi (hi : pid = id) : getChildren (edit parent.object) = getChildren parent.object := by
    subst hi
    cases hp.symm.trans hlp
    exact he
  have hpar : getParents page' = getParents (edit page.object) := by
    change getParents page'.object = _
    rw [hpe.object, getParents_relink, if_pos rfl]
  change id ∈ getChildren parent'.object ↔ _
  rw [hpar, hle.object]
  exact mem_getChildren_relink hi (hl page hp pid parent hlp)

theorem count_getChildren_of_revised (hp : s.storage.lookup id = some page)
    (he : getChildren (edit page.object) = getChildren page)
    (hr : s.Revised (relink id edit before after) s') {pid : BlobID} {parent' : FloBlobPage}
    (hl' : s'.storage.lookup pid = some parent') :
    ∃ parent, s.storage.lookup pid = some parent ∧
      ((getChildren parent').count id ≤ 1 ∨
        (getChildren parent').count id = (getChildren parent).count id) := by
  obtain ⟨parent, hlp, hle⟩ := hr.exists_lookup hl'
  refine ⟨parent, hlp, ?_⟩
  change (getChildren parent'.object).count id ≤ 1 ∨ (getChildren parent'.object).count id = _
  rw [hle.object]
  refine count_getChildren_relink fun hi => ?_
  subst hi
  cases hp.symm.trans hlp
  exact he

end

theorem updatePage_linked [Sha256] [Target] [Ed25519] [FromRmpBytes Verifier]
    [FromRmpBytes BadgeCond] {env : Env} {v v' : RealmView} {id : BlobID}
    {edit : BlobPage → BlobPage} {signer : Signer} {newPage : FloBlobPage}
    (hc : Ed25519.Correct ‹_›) (hk : v.pages.Keyed) (hl : v.pages.Linked id)
    (he : ∀ page, v.pages.storage.lookup id = some page →
      getChildren (edit page.object) = getChildren page)
    (ho : ∀ page, v.pages.storage.lookup id = some page →
      ∀ pid, pid ∈ getParents page ∨ pid ∈ getParents (edit page.object) →
        ∀ parent, v.pages.storage.lookup pid = some parent → env.CanEdit signer parent)
    (h : v.updatePage env id edit [signer] = .ok (v', newPage)) :
    v'.pages.Linked id ∧
      ∀ pid parent', v'.pages.storage.lookup pid = some parent' →
        ∃ parent, v.pages.storage.lookup pid = some parent ∧
          ((getChildren parent').count id ≤ 1 ∨
            (getChildren parent').count id = (getChildren parent).count id) := by
  cases hp : v.pages.storage.lookup id
  case none      =>
    rw [updatePage, hp] at h
    cases h
  case some page =>
    have hr := updatePage_revised hc hk hp (ho page hp) h
    constructor
    case left  => exact linked_of_revised hp hl (he page hp) hr
    case right =>
      exact fun pid parent' hl' => count_getChildren_of_revised hp (he page hp) hr hl'

section Concrete

attribute [local instance] Sha256.rolling Ed25519.plain Target.native64 DHTStorage.keys
  DHTStorage.badges

open ConditionSignature (alice)

-- A page which is moved from one parent to the other.
def family : RealmView :=
  viewOf [
    samplePage 0 "root" [] [pageId 1],
    samplePage 1 "docs" [pageId 0] [],
    samplePage 2 "blog" [] []
  ]

def knowsAlice : Env where
  dht _    := DHTStorage.single alice.getId alice.verifier
  stores _ := true
  order    := fun ids => ⟨ids, .refl ids⟩
  fuel     := 1

theorem keyed_storageOf (pages : List FloBlobPage) : (storageOf pages).Keyed := by
  have h (s : RealmStorage BlobPage) (hs : s.Reached) : (pages.foldl .insert s).Reached := by
    induction pages generalizing s
    case nil     => exact hs
    case cons hi => exact hi _ hs.insert
  exact (h _ .new).keyed

theorem canEdit_samplePage (nonce : UInt8) (path : String) (parents children : List BlobID) :
    knowsAlice.CanEdit alice (samplePage nonce path parents children) := by
  intro n c hc
  have hr : (DHTStorage.single alice.getId alice.verifier).convert .zero 1
      (.verifier alice.getId) = some (.verifier alice.verifier) := by
    simp [DHTStorage.convert, DHTStorage.getFlo_single _ DHTStorage.read_keys.left,
      FloWrapper.cache]
  cases hr.symm.trans hc
  constructor
  case canSigners  => decide +kernel
  case noCollision => simp [Condition.formula, Formula.leaves]

theorem lookup_family {id : BlobID} {fw : FloBlobPage}
    (h : family.pages.storage.lookup id = some fw) :
    id = pageId 2 ∧ fw = samplePage 2 "blog" [] [] ∨
      id = pageId 1 ∧ fw = samplePage 1 "docs" [pageId 0] [] ∨
        id = pageId 0 ∧ fw = samplePage 0 "root" [] [pageId 1] := by
  simp only [family, viewOf, storageOf, List.foldl_cons, List.foldl_nil,
    RealmStorage.lookup_insert, blobId_samplePage] at h
  split_ifs at h <;> simp_all

theorem linked_family : family.pages.Linked (pageId 1) := by
  have h₁ := pageId_ne 1 (by decide) 0 (by decide) (by decide)
  have h₂ := pageId_ne 1 (by decide) 2 (by decide) (by decide)
  have h₃ := pageId_ne 2 (by decide) 0 (by decide) (by decide)
  intro page hp pid parent hl
  have hp : page = samplePage 1 "docs" [pageId 0] [] := by
    simpa [h₁, h₂] using lookup_family hp
  subst hp
  rcases lookup_family hl with ⟨rfl, rfl⟩ | ⟨rfl, rfl⟩ | ⟨rfl, rfl⟩
  · change pageId 1 ∈ [] ↔ pageId 2 ∈ [pageId 0]
    simp [h₃]
  · change pageId 1 ∈ [] ↔ pageId 1 ∈ [pageId 0]
    simp [h₁]
  · change pageId 1 ∈ [pageId 1] ↔ pageId 0 ∈ [pageId 0]
    simp

theorem updatePage_family : ∃ v page, family.updatePage knowsAlice (pageId 1)
    (setParents [pageId 2]) [alice] = .ok (v, page) ∧ v.pages.Linked (pageId 1) := by
  have hu : (family.updatePage knowsAlice (pageId 1) (setParents [pageId 2]) [alice]).isOk := by
    decide +kernel
  cases hp : family.updatePage knowsAlice (pageId 1) (setParents [pageId 2]) [alice]
  case error        =>
    rw [hp] at hu
    cases hu
  case ok r =>
    obtain ⟨v, page⟩ := r
    have ho (fw : FloBlobPage) (pid : BlobID) (hl : family.pages.storage.lookup pid = some fw) :
        knowsAlice.CanEdit alice fw := by
      rcases lookup_family hl with ⟨_, rfl⟩ | ⟨_, rfl⟩ | ⟨_, rfl⟩ <;>
        exact canEdit_samplePage _ _ _ _
    exact ⟨v, page, rfl, (updatePage_linked Ed25519.plain_correct (keyed_storageOf _) linked_family
      (fun _ _ => getChildren_setParents) (fun _ _ pid _ fw => ho fw pid) hp).left⟩

end Concrete

end RealmView
