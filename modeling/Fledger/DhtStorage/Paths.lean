import Fledger.DhtStorage.RealmView
import Fledger.Lib.Acyclic

namespace RealmView

namespace RealmStorage

variable {α : Type} [BlobAccess α] (s : RealmStorage α)

-- A stored blob which has one of the ids or is a cuckoo of one of them.
def Offers (ids : List BlobID) (f : FloWrapper α) : Prop :=
  ∃ id ∈ ids, ∃ i, (i = id ∨ ∃ cs, s.cuckoos.lookup id = some cs ∧ i ∈ cs) ∧
    s.storage.lookup i = some f

-- Blobs with these names, of which the first one is offered by the ids, and each of the others by
-- the children of the one before it. The last of them is `f`.
inductive Chain : List BlobID → List String → FloWrapper α → Prop
  | last {ids part f} : s.Offers ids f → BlobPath.getPath f = some part → Chain ids [part] f
  | next {ids part parts f g} : s.Offers ids f → BlobPath.getPath f = some part →
    Chain (BlobFamily.getChildren f) parts g → Chain ids (part :: parts) g

-- What the lookup commits to.
def first (ids : List BlobID) (part : String) : Option (FloWrapper α) :=
  (s.withCuckoos ids).find? (BlobPath.getPath · = some part)

-- At each level, if one of the blobs with the name leads to the end of the path, then so does the
-- first one.
def Decisive : List BlobID → List String → Prop
  | _, []             => True
  | ids, part :: parts => ∀ f, s.first ids part = some f → parts ≠ [] →
    ((∃ g, s.Chain ids (part :: parts) g) → ∃ g, s.Chain (BlobFamily.getChildren f) parts g) ∧
      Decisive (BlobFamily.getChildren f) parts

-- The lookup succeeds exactly if there is a chain, and it returns the last blob of one.
structure Finds (path : String) (parts : List String) : Prop where
  complete : (∃ f, s.getPath path = .ok f) ↔ ∃ f, s.Chain [s.root] parts f
  sound    : ∀ f, s.getPath path = .ok f → s.Chain [s.root] parts f

variable {s} {ids : List BlobID} {part : String} {parts : List String} {f g : FloWrapper α}

omit [BlobAccess α] in
theorem mem_withCuckoos : f ∈ s.withCuckoos ids ↔ s.Offers ids f := by
  simp only [withCuckoos, Offers, List.mem_filterMap, List.mem_flatMap, List.mem_cons]
  constructor
  case mp  =>
    rintro ⟨i, ⟨id, hm, hi⟩, hf⟩
    refine ⟨id, hm, i, hi.imp_right fun hc => ?_, hf⟩
    cases hl : s.cuckoos.lookup id
    case none    => simp [hl] at hc
    case some cs => exact ⟨cs, rfl, by simpa [hl] using hc⟩
  case mpr =>
    rintro ⟨id, hm, i, hi, hf⟩
    refine ⟨i, ⟨id, hm, hi.imp_right ?_⟩, hf⟩
    rintro ⟨cs, hc, hi⟩
    simpa [hc] using hi

theorem first_eq_some (h : s.first ids part = some f) :
    s.Offers ids f ∧ BlobPath.getPath f = some part :=
  ⟨mem_withCuckoos.mp <| List.mem_of_find?_eq_some h, by simpa using List.find?_some h⟩

theorem exists_first (ho : s.Offers ids f) (hp : BlobPath.getPath f = some part) :
    ∃ f, s.first ids part = some f := by
  apply Option.isSome_iff_exists.mp
  exact List.find?_isSome.mpr ⟨f, mem_withCuckoos.mpr ho, by simpa using hp⟩

theorem Chain.exists_first (h : s.Chain ids (part :: parts) g) :
    ∃ f, s.first ids part = some f := by
  cases h
  case last ho hp   => exact RealmStorage.exists_first ho hp
  case next ho hp _ => exact RealmStorage.exists_first ho hp

theorem getPathInternal_nil (parts : List String) :
    (s.getPathInternal [] parts : Except String (FloWrapper α)) = throw "Couldn't find page" := by
  cases parts <;> rfl

theorem getPathInternal_cons_eq_ok : s.getPathInternal ids (part :: parts) = .ok g ↔
    ∃ f, s.first ids part = some f ∧
      if parts = [] then f = g
      else s.getPathInternal (BlobFamily.getChildren f) parts = .ok g := by
  rw [getPathInternal, first]
  cases (s.withCuckoos ids).find? (BlobPath.getPath · = some part)
  case none   => simp
  case some f =>
    simp only [Option.some.injEq, exists_eq_left']
    split
    case isTrue  => exact Outcome.pure_eq_ok
    case isFalse =>
      split
      case isTrue hc => rw [hc, getPathInternal_nil]
      case isFalse   => rfl

theorem chain_of_getPathInternal (h : s.getPathInternal ids parts = .ok g) :
    s.Chain ids parts g := by
  induction parts generalizing ids
  case nil                => cases h
  case cons part parts hi =>
    obtain ⟨f, hf, hg⟩ := getPathInternal_cons_eq_ok.mp h
    obtain ⟨ho, hp⟩ := first_eq_some hf
    split at hg
    case isTrue he => exact he ▸ hg ▸ .last ho hp
    case isFalse   => exact .next ho hp (hi hg)

theorem Decisive.exists_getPathInternal (hd : s.Decisive ids parts) (h : s.Chain ids parts g) :
    ∃ f, s.getPathInternal ids parts = .ok f := by
  induction parts generalizing ids g
  case nil                => cases h
  case cons part parts hi =>
    obtain ⟨f, hf⟩ := h.exists_first
    by_cases hp : parts = []
    case pos => exact ⟨f, getPathInternal_cons_eq_ok.mpr ⟨f, hf, by rw [if_pos hp]⟩⟩
    case neg =>
      obtain ⟨hc, hd⟩ := hd f hf hp
      obtain ⟨g, hg⟩ := hc ⟨g, h⟩
      obtain ⟨g, hg⟩ := hi hd hg
      exact ⟨g, getPathInternal_cons_eq_ok.mpr ⟨f, hf, by rwa [if_neg hp]⟩⟩

theorem decisive_of_exists
    (h : (∃ g, s.Chain ids parts g) → ∃ f, s.getPathInternal ids parts = .ok f) :
    s.Decisive ids parts := by
  induction parts generalizing ids
  case nil                => trivial
  case cons part parts hi =>
    intro f hf hp
    obtain ⟨ho, hn⟩ := first_eq_some hf
    -- What the lookup finds has to be among what the first blob leads to.
    have hg (hc : ∃ g, s.Chain ids (part :: parts) g) :
        ∃ g, s.getPathInternal (BlobFamily.getChildren f) parts = .ok g := by
      obtain ⟨g, hg⟩ := h hc
      obtain ⟨f', hf', hg⟩ := getPathInternal_cons_eq_ok.mp hg
      cases hf.symm.trans hf'
      rw [if_neg hp] at hg
      exact ⟨g, hg⟩
    constructor
    case left  =>
      intro hc
      obtain ⟨g, hg⟩ := hg hc
      exact ⟨g, chain_of_getPathInternal hg⟩
    case right =>
      refine hi fun hc => hg ?_
      obtain ⟨g, hc⟩ := hc
      exact ⟨g, .next ho hn hc⟩

theorem finds_pathParts (s : RealmStorage α) (path : String) :
    s.Finds path (pathParts path) ↔ s.Decisive [s.root] (pathParts path) := by
  constructor
  case mp  => exact fun h => decisive_of_exists h.complete.mpr
  case mpr =>
    intro h
    have hs (f : FloWrapper α) (hf : s.getPath path = .ok f) := chain_of_getPathInternal hf
    refine ⟨⟨fun ⟨f, hf⟩ => ⟨f, hs f hf⟩, fun ⟨_, hc⟩ => h.exists_getPathInternal hc⟩, hs⟩

-- The names of which a path consists.
structure Names where
  parts   : List (List Char)
  first   : ∃ c cs ps, parts = (c :: cs) :: ps
  slashes : ∀ p ∈ parts, '/' ∉ p

-- With slashes between them, and in front of them if there are any.
def Names.path (ns : Names) (n : Nat) : String :=
  String.ofList <| List.replicate n '/' ++ ['/'].intercalate ns.parts

theorem pathParts_path (ns : Names) (n : Nat) :
    pathParts (ns.path n) = ns.parts.map String.ofList := by
  obtain ⟨_, ⟨c, cs, ps, rfl⟩, h⟩ := ns
  have hc : c ≠ '/' := by
    rintro rfl
    exact h _ List.mem_cons_self List.mem_cons_self
  have hi : ∃ xs, ['/'].intercalate ((c :: cs) :: ps) = c :: xs := by
    cases ps <;> simp [List.intercalate, List.intersperse]
  obtain ⟨xs, hi⟩ := hi
  have hd : (List.replicate n '/' ++ c :: xs).dropWhile (· = '/') = c :: xs := by
    rw [List.dropWhile_append_of_pos (by simp), List.dropWhile_cons_of_neg (by simpa using hc)]
  rw [pathParts, Names.path, String.toList_ofList, hi, hd, ← hi,
    List.splitOn_intercalate '/' h (by simp)]

-- A path is found exactly if the lookup never has to come back to another blob with the same name.
theorem finds_iff (s : RealmStorage α) :
    (∀ (ns : Names) (n : Nat), s.Finds (ns.path n) (ns.parts.map String.ofList) ↔
      s.Decisive [s.root] (ns.parts.map String.ofList)) ∧
    ∀ path : String, s.Finds path (pathParts path) ↔ s.Decisive [s.root] (pathParts path) :=
  ⟨fun ns n => pathParts_path ns n ▸ finds_pathParts s (ns.path n), finds_pathParts s⟩

section Concrete

attribute [local instance] Sha256.rolling Ed25519.plain Target.native64

-- Two pages of the same name, of which only the second one has the page below it.
def twins : RealmStorage BlobPage :=
  storageOf [
    samplePage 0 "root" [] [pageId 1, pageId 2],
    samplePage 1 "docs" [pageId 0] [],
    samplePage 2 "docs" [pageId 0] [pageId 3],
    samplePage 3 "intro" [pageId 2] []
  ]

theorem offers_of_lookup {α : Type} {s : RealmStorage α} {id : BlobID} {ids : List BlobID}
    {f : FloWrapper α} (hm : id ∈ ids) (h : s.storage.lookup id = some f) : s.Offers ids f :=
  ⟨id, hm, id, .inl rfl, h⟩

theorem chain_twins : ∃ f, twins.Chain [twins.root] ["root", "docs", "intro"] f := by
  have hl : twins.storage.lookup (pageId 0) =
        some (samplePage 0 "root" [] [pageId 1, pageId 2]) ∧
      twins.storage.lookup (pageId 2) = some (samplePage 2 "docs" [pageId 0] [pageId 3]) ∧
      twins.storage.lookup (pageId 3) = some (samplePage 3 "intro" [pageId 2] []) := by
    have h₁ := pageId_ne 0 (by decide) 1 (by decide) (by decide)
    have h₂ := pageId_ne 0 (by decide) 2 (by decide) (by decide)
    have h₃ := pageId_ne 0 (by decide) 3 (by decide) (by decide)
    have h₄ := pageId_ne 2 (by decide) 3 (by decide) (by decide)
    simp only [twins, storageOf, List.foldl_cons, List.foldl_nil, lookup_insert, blobId_samplePage,
      if_neg h₁, if_neg h₂, if_neg h₃, if_neg h₄, if_true, and_true]
  obtain ⟨h₀, h₂, h₃⟩ := hl
  have hr : twins.Offers [twins.root] (samplePage 0 "root" [] [pageId 1, pageId 2]) :=
    offers_of_lookup (List.mem_singleton.mpr rfl) h₀
  have hd : twins.Offers [pageId 1, pageId 2] (samplePage 2 "docs" [pageId 0] [pageId 3]) :=
    offers_of_lookup (List.mem_cons_of_mem _ List.mem_cons_self) h₂
  have hi : twins.Offers [pageId 3] (samplePage 3 "intro" [pageId 2] []) :=
    offers_of_lookup List.mem_cons_self h₃
  exact ⟨_, .next hr rfl <| .next hd rfl <| .last hi rfl⟩

theorem not_finds : (twins.getPath "root/docs/intro").toOption.isSome = false ∧
    (∃ f, twins.Chain [twins.root] ["root", "docs", "intro"] f) ∧
    ¬twins.Finds "root/docs/intro" ["root", "docs", "intro"] := by
  have hg : (twins.getPath "root/docs/intro").toOption.isSome = false := by decide +kernel
  refine ⟨hg, chain_twins, fun h => ?_⟩
  obtain ⟨f, hf⟩ := h.complete.mpr chain_twins
  rw [hf] at hg
  cases hg

end Concrete

end RealmStorage

section

variable (v : RealmView)

-- The parent which the full path of a stored blob goes on with.
def FirstParent (p id : BlobID) : Prop :=
  ∃ b, v.getBlobPathFamily id = some b ∧ (BlobPath.getPath b).isSome = true ∧
    (BlobFamily.getParents b).head? = some p

-- The first parents lead to a blob from which they come back to it.
def Circular (id : BlobID) : Prop :=
  ∃ q, Relation.ReflTransGen v.FirstParent q id ∧ Relation.TransGen v.FirstParent q q

variable {v} {fuel : Nat} {id p : BlobID} {b : Blob} {path : String}

theorem getFullPathId_succ : v.getFullPathId (fuel + 1) id =
    (v.getBlobPathFamily id).elim (some (throw "Didn't find page or tag with this ID"))
      (v.getFullPathBlob fuel) := by
  rw [getFullPathId, getBlobPathFamily]
  cases v.pages.storage.lookup id
  case some => rfl
  case none => cases v.tags.storage.lookup id <;> rfl

theorem getFullPathBlob_of_parent (hb : BlobPath.getPath b = some path)
    (hp : (BlobFamily.getParents b).head? = some p) :
    v.getFullPathBlob (fuel + 1) b =
      (v.getFullPathId fuel p).map fun r => r.map (· ++ "/" ++ path) := by
  rw [getFullPathBlob, hb, hp]
  dsimp only
  cases v.getFullPathId fuel p <;> rfl

theorem acc_of_getFullPathId {r : Except String String} (h : v.getFullPathId fuel id = some r) :
    Acc v.FirstParent id := by
  induction fuel using Nat.strong_induction_on generalizing id r
  case h fuel hi =>
    constructor
    rintro p ⟨b, hb, hs, hp⟩
    obtain ⟨path, hs⟩ := Option.isSome_iff_exists.mp hs
    match fuel with
    | 0        => cases h
    | 1        =>
      rw [getFullPathId_succ, hb] at h
      cases h
    | fuel + 2 =>
      rw [getFullPathId_succ, hb, Option.elim_some, getFullPathBlob_of_parent hs hp] at h
      obtain ⟨r, hr, _⟩ := Option.map_eq_some_iff.mp h
      exact hi fuel (by omega) hr

-- The path of a blob ends if that of its first parent does.
theorem exists_getFullPathBlob (h : ∀ p, (BlobPath.getPath b).isSome = true →
    (BlobFamily.getParents b).head? = some p → ∃ fuel r, v.getFullPathId fuel p = some r) :
    ∃ fuel r, v.getFullPathBlob fuel b = some r := by
  cases hs : BlobPath.getPath b
  case none      => exact ⟨1, _, by rw [getFullPathBlob, hs]⟩
  case some path =>
    cases hp : (BlobFamily.getParents b).head?
    case none   =>
      refine ⟨1, .ok ("/" ++ path), ?_⟩
      rw [getFullPathBlob, hs, hp]
      rfl
    case some p =>
      obtain ⟨fuel, r, hr⟩ := h p (hs ▸ rfl) hp
      refine ⟨fuel + 1, r.map (· ++ "/" ++ path), ?_⟩
      rw [getFullPathBlob_of_parent hs hp, hr]
      rfl

theorem exists_getFullPathId (h : Acc v.FirstParent id) :
    ∃ fuel r, v.getFullPathId fuel id = some r := by
  induction h
  case intro id _ hi =>
    cases hb : v.getBlobPathFamily id
    case none   => exact ⟨1, _, by rw [getFullPathId_succ, hb]; rfl⟩
    case some b =>
      obtain ⟨fuel, r, hr⟩ := exists_getFullPathBlob fun p hs hp => hi p ⟨b, hb, hs, hp⟩
      exact ⟨fuel + 1, r, by rw [getFullPathId_succ, hb]; exact hr⟩

theorem acc_iff_not_circular : Acc v.FirstParent id ↔ ¬v.Circular id := by
  simp only [Relation.acc_iff_forall_not_transGen, Circular, not_exists, not_and]

theorem exists_getFullPathId_iff :
    (∃ fuel r, v.getFullPathId fuel id = some r) ↔ ¬v.Circular id := by
  rw [← acc_iff_not_circular]
  exact ⟨fun ⟨_, _, h⟩ => acc_of_getFullPathId h, exists_getFullPathId⟩

theorem exists_getFullPathBlob_iff : (∃ fuel r, v.getFullPathBlob fuel b = some r) ↔
    ∀ p, (BlobPath.getPath b).isSome = true → (BlobFamily.getParents b).head? = some p →
      ¬v.Circular p := by
  constructor
  case mp  =>
    rintro ⟨fuel, r, h⟩ p hs hp
    obtain ⟨path, hs⟩ := Option.isSome_iff_exists.mp hs
    cases fuel
    case zero => cases h
    case succ =>
      rw [getFullPathBlob_of_parent hs hp] at h
      obtain ⟨r, hr, _⟩ := Option.map_eq_some_iff.mp h
      exact exists_getFullPathId_iff.mp ⟨_, r, hr⟩
  case mpr =>
    exact fun h => exists_getFullPathBlob fun p hs hp => exists_getFullPathId_iff.mpr (h p hs hp)

-- A full path ends unless the first parents run into a cycle.
theorem fullPath_ends_iff (v : RealmView) (id : BlobID) (b : Blob) :
    ((∃ fuel r, v.getFullPathId fuel id = some r) ↔ ¬v.Circular id) ∧
      ((∃ fuel r, v.getFullPathBlob fuel b = some r) ↔
        ∀ p, (BlobPath.getPath b).isSome = true → (BlobFamily.getParents b).head? = some p →
          ¬v.Circular p) :=
  ⟨exists_getFullPathId_iff, exists_getFullPathBlob_iff⟩

end

section Concrete

attribute [local instance] Sha256.rolling Ed25519.plain Target.native64

-- A page which is its own parent.
def looped : RealmView :=
  viewOf [samplePage 0 "root" [pageId 0] []]

theorem not_fullPath_ends : (¬∃ fuel r, looped.getFullPathId fuel (pageId 0) = some r) ∧
    ¬∃ fuel r, looped.getFullPathBlob fuel (getBlob (samplePage 0 "root" [pageId 0] [])) =
      some r := by
  have hl : looped.pages.storage.lookup (pageId 0) = some (samplePage 0 "root" [pageId 0] []) := by
    simp [looped, viewOf, storageOf, RealmStorage.lookup_insert, blobId_samplePage]
  have hf : looped.FirstParent (pageId 0) (pageId 0) :=
    ⟨getBlob (samplePage 0 "root" [pageId 0] []), by rw [getBlobPathFamily, hl], rfl, rfl⟩
  have hc : looped.Circular (pageId 0) := ⟨pageId 0, .refl, .single hf⟩
  constructor
  case left  => exact fun h => exists_getFullPathId_iff.mp h hc
  case right => exact fun h => exists_getFullPathBlob_iff.mp h _ rfl rfl hc

end Concrete

end RealmView
