import Fledger.Crypto.Panics
import Fledger.Lib.Acyclic
import Fledger.Lib.Traverse
import Mathlib.Data.Finite.Prod
import Mathlib.Data.Set.Finite.List

theorem List.mapM_eq_some_iff_zip {α β : Type} {f : α → Option β} {as : List α} {bs : List β} :
    as.mapM f = some bs ↔ as.length = bs.length ∧ ∀ p ∈ as.zip bs, f p.1 = some p.2 := by
  rw [List.mapM_eq_some, List.forall₂_iff_zip]
  exact and_congr_right fun _ => ⟨fun h p hp => h hp, fun h _ _ hp => h _ hp⟩

theorem List.forall_mem_zip_fst {α β : Type} {as : List α} {bs : List β} {P : α → Prop}
    (hl : as.length = bs.length) : (∀ p ∈ as.zip bs, P p.1) ↔ ∀ a ∈ as, P a := by
  rw [← List.forall_mem_map (f := Prod.fst), List.map_fst_zip hl.le]

theorem List.forall_mem_zip_snd {α β : Type} {as : List α} {bs : List β} {P : β → Prop}
    (hl : as.length = bs.length) : (∀ p ∈ as.zip bs, P p.2) ↔ ∀ b ∈ bs, P b := by
  rw [← List.forall_mem_map (f := Prod.snd), List.map_snd_zip hl.ge]

theorem List.forall_mem_congr_zip {α β : Type} {as : List α} {bs : List β} {P : α → Prop}
    {Q : β → Prop} (hl : as.length = bs.length) (h : ∀ p ∈ as.zip bs, (P p.1 ↔ Q p.2)) :
    (∀ a ∈ as, P a) ↔ ∀ b ∈ bs, Q b :=
  (forall_mem_zip_fst hl).symm.trans <| (forall₂_congr h).trans (forall_mem_zip_snd hl)

instance UInt8.finite : Finite UInt8 :=
  Finite.of_injective UInt8.toFin fun _ _ => UInt8.toFin_inj.mp

instance UInt32.finite : Finite UInt32 :=
  Finite.of_injective UInt32.toFin fun _ _ => UInt32.toFin_inj.mp

instance : Finite U256 := by
  have : Finite {bs : Bytes // bs.length = 32} := List.finite_length_eq UInt8 32
  exact Finite.of_injective (fun n => (⟨n.bytes, n.length_bytes⟩ : {bs : Bytes // bs.length = 32}))
    fun m n h => by cases m; cases n; simpa using h

def VersionSpec.parts {α : Type} : VersionSpec α → Fin 3 × α × UInt32
  | minimal id v => (0, id, v)
  | exact id v   => (1, id, v)
  | maximal id v => (2, id, v)

instance {α : Type} [Finite α] : Finite (VersionSpec α) :=
  Finite.of_injective VersionSpec.parts fun a b h => by
    cases a <;> cases b <;> simp_all [VersionSpec.parts]

namespace Condition

mutual

-- Nothing is missing, not even behind a badge.
def complete : Condition → Bool
  | badge _ _ _ c     => c.complete
  | nofT _ conditions => completeAll conditions
  | notAvailable      => false
  | _                 => true

def completeAll : List Condition → Bool
  | []      => true
  | c :: cs => c.complete && completeAll cs

end

variable {cs : List Condition}

theorem completeAll_eq_true : completeAll cs = true ↔ ∀ c ∈ cs, c.complete = true := by
  induction cs
  case nil          => simp [completeAll]
  case cons c cs hi => simp [completeAll, hi]

theorem incompleteAny_eq_false : incompleteAny cs = false ↔ ∀ c ∈ cs, c.incomplete = false := by
  simp [← Bool.not_eq_true, incompleteAny_eq_true]

end Condition

namespace ConditionLink

variable (gb : VersionSpec BadgeID → Option BadgeLink) (gv : KeyPairID → Option Verifier)

-- What a link stands for, given what is found for the badges and the verifiers.
inductive Resolves : ConditionLink → Condition → Prop
  | verifier (id) : Resolves (.verifier id) ((gv id).elim .notAvailable .verifier)
  | badge {spec b c} :
    gb spec = some b → Resolves b.condition c →
      Resolves (.badge spec) (.badge spec b.id b.version c)
  | missing {spec} : gb spec = none → Resolves (.badge spec) .notAvailable
  | nofT {thr links cs} : links.length = cs.length →
    (∀ p ∈ links.zip cs, Resolves p.1 p.2) → Resolves (.nofT thr links) (.nofT thr cs)
  | pass : Resolves .pass .pass
  | fail : Resolves .fail .fail

-- What is looked up on the way.
inductive Reads : ConditionLink → Leaf → Prop
  | leaf {link leaf} : leaf ∈ link.shape.leaves → Reads link leaf
  | badge {link spec b leaf} : .badge spec ∈ link.shape.leaves → gb spec = some b →
    Reads b.condition leaf → Reads link leaf

def Leaf.Found : Leaf → Prop
  | verifier id => (gv id).isSome
  | badge spec  => (gb spec).isSome
  | _           => True

-- If something is found, then it is what has been asked for.
def Leaf.Right [Sha256] : Leaf → Prop
  | verifier id => ∀ v, gv id = some v → v.getId = id
  | badge spec  => ∀ b, gb spec = some b → b.fitsVersion spec = true
  | _           => True

-- The verifiers have the key ids of the link, and the badges the ids and the versions.
inductive Named [Sha256] : ConditionLink → Condition → Prop
  | verifier (v) : Named (.verifier v.getId) (.verifier v)
  | badge {spec b version c} : gb spec = some b → spec.accepts version = true →
    Named b.condition c → Named (.badge spec) (.badge spec spec.getId version c)
  | nofT {thr links cs} : links.length = cs.length →
    (∀ p ∈ links.zip cs, Named p.1 p.2) → Named (.nofT thr links) (.nofT thr cs)
  | pass : Named .pass .pass
  | fail : Named .fail .fail

-- The condition of the badge asks for the other badge.
def Refers (other spec : VersionSpec BadgeID) : Prop :=
  ∃ b, gb spec = some b ∧ .badge other ∈ b.condition.shape.leaves

-- None of the badges which are looked up refers back to itself.
def Grounded (link : ConditionLink) : Prop :=
  ∀ spec, .badge spec ∈ link.shape.leaves →
    ∀ other, Relation.ReflTransGen (Refers gb) other spec →
      ¬Relation.TransGen (Refers gb) other other

variable {gb gv} {link : ConditionLink} {links : List ConditionLink} {c : Condition}
  {cs : List Condition} {spec : VersionSpec BadgeID} {thr : UInt32} {leaf : Leaf}

theorem mem_leaves_nofT :
    leaf ∈ (nofT thr links).shape.leaves ↔ ∃ l ∈ links, leaf ∈ l.shape.leaves := by
  rw [shape, Formula.leaves, Formula.mem_leavesAll, shapes_eq_map]
  simp

theorem mem_leaves_badge : leaf ∈ (badge spec).shape.leaves ↔ leaf = .badge spec := by
  rw [shape, Formula.leaves, List.mem_singleton]

theorem resolves_of_toCondition {fuel : Nat} (h : link.toCondition gb gv fuel = some c) :
    Resolves gb gv link c := by
  induction fuel generalizing link c
  case zero         => cases h
  case succ fuel hi =>
    cases link
    case verifier id    => exact Option.some.inj h ▸ .verifier id
    case badge spec     =>
      rw [toCondition] at h
      split at h
      case h_1 b hb =>
        obtain ⟨c, hc, h⟩ := Option.bind_eq_some_iff.mp h
        exact Option.some.inj h ▸ .badge hb (hi hc)
      case h_2 hb   => exact Option.some.inj h ▸ .missing hb
    case nofT thr links =>
      obtain ⟨cs, hcs, h⟩ := Option.bind_eq_some_iff.mp h
      obtain ⟨hl, hcs⟩ := List.mapM_eq_some_iff_zip.mp hcs
      exact Option.some.inj h ▸ .nofT hl fun p hp => hi (hcs p hp)
    case pass           => exact Option.some.inj h ▸ .pass
    case fail           => exact Option.some.inj h ▸ .fail

theorem exists_fuel {ps : List (ConditionLink × Condition)}
    (h : ∀ p ∈ ps, ∃ n, ∀ fuel ≥ n, p.1.toCondition gb gv fuel = some p.2) :
    ∃ n, ∀ fuel ≥ n, ∀ p ∈ ps, p.1.toCondition gb gv fuel = some p.2 := by
  induction ps
  case nil          => simp
  case cons p ps hi =>
    obtain ⟨⟨m, hm⟩, h⟩ := List.forall_mem_cons.mp h
    obtain ⟨n, hn⟩ := hi h
    refine ⟨max m n, fun fuel hf => List.forall_mem_cons.mpr ⟨hm fuel ?_, hn fuel ?_⟩⟩
    case refine_1 => exact le_of_max_le_left hf
    case refine_2 => exact le_of_max_le_right hf

theorem Resolves.toCondition (h : Resolves gb gv link c) :
    ∃ n, ∀ fuel ≥ n, link.toCondition gb gv fuel = some c := by
  have hs {P : Nat → Prop} {n : Nat} (h : ∀ fuel ≥ n, P (fuel + 1)) :
      ∃ n, ∀ fuel ≥ n, P fuel := by
    refine ⟨n + 1, fun fuel hf => ?_⟩
    obtain ⟨fuel, rfl⟩ := Nat.exists_eq_add_of_le' (Nat.le_of_add_left_le hf)
    exact h fuel (Nat.le_of_add_le_add_right hf)
  induction h
  case badge hb _ hi   =>
    obtain ⟨n, hn⟩ := hi
    exact hs (n := n) fun fuel hf => by simp [ConditionLink.toCondition, hb, hn fuel hf]
  case missing hb      => exact hs (n := 0) fun _ _ => by simp [ConditionLink.toCondition, hb]
  case nofT thr links cs hl _ hi =>
    obtain ⟨n, hn⟩ := exists_fuel hi
    refine hs (n := n) fun fuel hf => ?_
    simp [ConditionLink.toCondition, List.mapM_eq_some_iff_zip.mpr ⟨hl, hn fuel hf⟩]
  all_goals exact hs (n := 0) fun _ _ => rfl

theorem exists_toCondition :
    (∃ fuel, link.toCondition gb gv fuel = some c) ↔ Resolves gb gv link c := by
  refine ⟨fun ⟨_, h⟩ => resolves_of_toCondition h, fun h => ?_⟩
  obtain ⟨n, hn⟩ := h.toCondition
  exact ⟨n, hn n le_rfl⟩

theorem exists_resolves_nofT (h : ∀ l ∈ links, ∃ c, Resolves gb gv l c) :
    ∃ c, Resolves gb gv (nofT thr links) c := by
  have hs : ∃ cs : List Condition, links.length = cs.length ∧
      ∀ p ∈ links.zip cs, Resolves gb gv p.1 p.2 := by
    induction links
    case nil            => exact ⟨[], by simp⟩
    case cons l links hi =>
      obtain ⟨⟨c, hc⟩, h⟩ := List.forall_mem_cons.mp h
      obtain ⟨cs, hl, hcs⟩ := hi h
      refine ⟨c :: cs, by simp [hl], ?_⟩
      rw [List.zip_cons_cons, List.forall_mem_cons]
      exact ⟨hc, hcs⟩
  obtain ⟨cs, hl, hcs⟩ := hs
  exact ⟨.nofT thr cs, .nofT hl hcs⟩

-- A link resolves, if the badges which it asks for do.
theorem exists_resolves
    (h : ∀ spec, .badge spec ∈ link.shape.leaves → ∃ c, Resolves gb gv (.badge spec) c) :
    ∃ c, Resolves gb gv link c := by
  induction link using rec'
  case verifier id  => exact ⟨_, .verifier id⟩
  case badge spec   => exact h spec (mem_leaves_badge.mpr rfl)
  case nofT thr links hi =>
    refine exists_resolves_nofT fun l hl => hi l hl fun spec hs => h spec ?_
    exact mem_leaves_nofT.mpr ⟨l, hl, hs⟩
  case fail         => exact ⟨_, .fail⟩
  case pass         => exact ⟨_, .pass⟩

theorem exists_resolves_of_acc (h : Acc (Refers gb) spec) :
    ∃ c, Resolves gb gv (.badge spec) c := by
  induction h
  case intro spec _ hi =>
    cases hb : gb spec
    case none   => exact ⟨_, .missing hb⟩
    case some b =>
      obtain ⟨c, hc⟩ := exists_resolves fun other ho => hi other ⟨b, hb, ho⟩
      exact ⟨_, .badge hb hc⟩

theorem Resolves.acc (h : Resolves gb gv link c) :
    ∀ spec, .badge spec ∈ link.shape.leaves → Acc (Refers gb) spec := by
  induction h
  case badge hb _ hi =>
    intro _ hs
    cases mem_leaves_badge.mp hs
    refine ⟨_, ?_⟩
    rintro other ⟨b, hb', ho⟩
    cases hb.symm.trans hb'
    exact hi other ho
  case missing hb    =>
    intro _ hs
    cases mem_leaves_badge.mp hs
    refine ⟨_, ?_⟩
    rintro other ⟨b, hb', _⟩
    cases hb.symm.trans hb'
  case nofT hl _ hi  =>
    intro spec hs
    obtain ⟨l, hm, hs⟩ := mem_leaves_nofT.mp hs
    obtain ⟨p, hp, rfl⟩ := List.mem_map.mp ((List.map_fst_zip hl.le).symm ▸ hm)
    exact hi p hp spec hs
  all_goals simp [shape, Formula.leaves]

-- Resolving ends, if and only if no badge which is looked up refers back to itself.
theorem exists_resolves_iff : (∃ c, Resolves gb gv link c) ↔ link.Grounded gb := by
  simp only [Grounded, ← Relation.acc_iff_forall_not_transGen]
  refine ⟨fun ⟨_, h⟩ => h.acc, fun h => ?_⟩
  exact exists_resolves fun spec hs => exists_resolves_of_acc (h spec hs)

theorem forall_leaves_nofT {P : Leaf → Prop} :
    (∀ leaf ∈ (nofT thr links).shape.leaves, P leaf) ↔
      ∀ l ∈ links, ∀ leaf ∈ l.shape.leaves, P leaf := by
  simp only [mem_leaves_nofT, forall_exists_index, and_imp]
  exact ⟨fun h l hl leaf => h leaf l hl, fun h leaf l hl => h l hl leaf⟩

theorem Resolves.incomplete_eq_false (h : Resolves gb gv link c) :
    (∀ leaf ∈ link.shape.leaves, leaf.Found gb gv) ↔ c.incomplete = false := by
  induction h
  case verifier id  =>
    cases hv : gv id <;> simp [shape, Formula.leaves, Leaf.Found, Condition.incomplete, hv]
  case badge hb _ _ => simp [shape, Formula.leaves, Leaf.Found, Condition.incomplete, hb]
  case missing hb   => simp [shape, Formula.leaves, Leaf.Found, Condition.incomplete, hb]
  case nofT hl _ hi =>
    rw [Condition.incomplete, Condition.incompleteAny_eq_false, forall_leaves_nofT]
    exact List.forall_mem_congr_zip hl hi
  all_goals simp [shape, Formula.leaves, Leaf.Found, Condition.incomplete]

theorem forall_reads_badge {P : Leaf → Prop} : (∀ leaf, Reads gb (badge spec) leaf → P leaf) ↔
    P (.badge spec) ∧ ∀ b, gb spec = some b → ∀ leaf, Reads gb b.condition leaf → P leaf := by
  constructor
  case mp  =>
    intro h
    have hs : .badge spec ∈ (badge spec).shape.leaves := mem_leaves_badge.mpr rfl
    exact ⟨h _ (.leaf hs), fun b hb leaf hl => h leaf (.badge hs hb hl)⟩
  case mpr =>
    rintro ⟨hs, h⟩ leaf (hl | ⟨hl, hb, hr⟩)
    case leaf  => exact mem_leaves_badge.mp hl ▸ hs
    case badge =>
      cases mem_leaves_badge.mp hl
      exact h _ hb leaf hr

theorem forall_reads_nofT {P : Leaf → Prop} :
    (∀ leaf, Reads gb (nofT thr links) leaf → P leaf) ↔
      ∀ l ∈ links, ∀ leaf, Reads gb l leaf → P leaf := by
  constructor
  case mp  =>
    rintro h l hl leaf (hm | ⟨hm, hb, hr⟩)
    case leaf  => exact h leaf (.leaf <| mem_leaves_nofT.mpr ⟨l, hl, hm⟩)
    case badge => exact h leaf (.badge (mem_leaves_nofT.mpr ⟨l, hl, hm⟩) hb hr)
  case mpr =>
    rintro h leaf (hm | ⟨hm, hb, hr⟩)
    case leaf  =>
      obtain ⟨l, hl, hm⟩ := mem_leaves_nofT.mp hm
      exact h l hl leaf (.leaf hm)
    case badge =>
      obtain ⟨l, hl, hm⟩ := mem_leaves_nofT.mp hm
      exact h l hl leaf (.badge hm hb hr)

theorem forall_reads_single {P : Leaf → Prop} (hs : link.shape.leaves = [leaf])
    (hb : ∀ spec, leaf ≠ .badge spec) : (∀ leaf, Reads gb link leaf → P leaf) ↔ P leaf := by
  constructor
  case mp  => exact fun h => h _ (.leaf <| hs ▸ List.mem_singleton_self _)
  case mpr =>
    rintro h leaf (hm | ⟨hm, -, -⟩)
    case leaf  => exact List.mem_singleton.mp (hs ▸ hm) ▸ h
    case badge => exact (hb _ (List.mem_singleton.mp (hs ▸ hm)).symm).elim

theorem forall_reads_verifier {P : Leaf → Prop} {id : KeyPairID} :
    (∀ leaf, Reads gb (verifier id) leaf → P leaf) ↔ P (.verifier id) :=
  forall_reads_single (by rw [shape, Formula.leaves]) (by simp)

theorem forall_reads_pass {P : Leaf → Prop} : (∀ leaf, Reads gb pass leaf → P leaf) ↔ P .pass :=
  forall_reads_single (by rw [shape, Formula.leaves]) (by simp)

theorem forall_reads_fail {P : Leaf → Prop} : (∀ leaf, Reads gb fail leaf → P leaf) ↔ P .fail :=
  forall_reads_single (by rw [shape, Formula.leaves]) (by simp)

theorem Resolves.complete_iff (h : Resolves gb gv link c) :
    (∀ leaf, Reads gb link leaf → leaf.Found gb gv) ↔ c.complete = true := by
  induction h
  case verifier id   =>
    rw [forall_reads_verifier]
    cases hv : gv id <;> simp [Leaf.Found, Condition.complete, hv]
  case badge hb _ hi =>
    rw [forall_reads_badge, Condition.complete, ← hi]
    simp [Leaf.Found, hb]
  case missing hb    =>
    rw [forall_reads_badge]
    simp [Leaf.Found, Condition.complete, hb]
  case nofT hl _ hi  =>
    rw [Condition.complete, Condition.completeAll_eq_true, forall_reads_nofT]
    exact List.forall_mem_congr_zip hl hi
  case pass          => simp [forall_reads_pass, Leaf.Found, Condition.complete]
  case fail          => simp [forall_reads_fail, Leaf.Found, Condition.complete]

section

variable [Sha256]

theorem Named.toLink (h : Named gb link c) : c.toLink = .ok link := by
  induction h
  case nofT thr links cs hl hn hi =>
    clear hn
    have hs : Condition.toLinks cs = .ok links := by
      induction links generalizing cs
      case nil            => rw [List.length_eq_zero_iff.mp hl.symm]; rfl
      case cons l links his =>
        cases cs
        case nil       => cases hl
        case cons c cs =>
          rw [List.zip_cons_cons, List.forall_mem_cons] at hi
          rw [Condition.toLinks, hi.left, his (Nat.succ.inj hl) hi.right]
          rfl
    rw [Condition.toLink, hs]
    rfl
  all_goals rfl

theorem named_badge {s : VersionSpec BadgeID} {id : BadgeID} {version : UInt32} :
    Named gb (badge spec) (.badge s id version c) ↔
      s = spec ∧ id = spec.getId ∧ spec.accepts version = true ∧
        ∃ b, gb spec = some b ∧ Named gb b.condition c := by
  constructor
  case mp  => exact fun | .badge hb ha hc => ⟨rfl, rfl, ha, _, hb, hc⟩
  case mpr =>
    rintro ⟨rfl, rfl, ha, b, hb, hc⟩
    exact .badge hb ha hc

theorem named_nofT (hl : links.length = cs.length) :
    Named gb (nofT thr links) (.nofT thr cs) ↔ ∀ p ∈ links.zip cs, Named gb p.1 p.2 :=
  ⟨fun | .nofT _ h => h, .nofT hl⟩

theorem Resolves.named_iff (h : Resolves gb gv link c) (hc : c.complete = true) :
    Named gb link c ↔ ∀ leaf, Reads gb link leaf → leaf.Right gb gv := by
  induction h
  case verifier id   =>
    rw [forall_reads_verifier]
    cases hv : gv id
    case none   => simp [hv, Condition.complete] at hc
    case some v =>
      simp only [Option.elim_some, Leaf.Right, hv, Option.some.injEq, forall_eq']
      exact ⟨fun | .verifier _ => rfl, fun h => h ▸ .verifier v⟩
  case badge hb _ hi =>
    rw [forall_reads_badge, named_badge, Leaf.Right, ← and_assoc, ← and_assoc]
    simp only [hb, Option.some.injEq, forall_eq', exists_eq_left', true_and, hi hc]
    rw [BadgeLink.fitsVersion, Bool.and_eq_true, beq_iff_eq, eq_comm]
  case missing hb    => cases hc
  case nofT hl _ hi  =>
    rw [Condition.complete, Condition.completeAll_eq_true] at hc
    have hi : ∀ p ∈ _, _ := fun p hp => hi p hp <| (List.forall_mem_zip_snd hl).mpr hc p hp
    rw [forall_reads_nofT, named_nofT hl, forall₂_congr hi]
    exact List.forall_mem_zip_fst (P := fun l => ∀ leaf, Reads gb l leaf → leaf.Right gb gv) hl
  case pass          => simp [forall_reads_pass, Leaf.Right, Named.pass]
  case fail          => simp [forall_reads_fail, Leaf.Right, Named.fail]

-- A resolution is faithful, if and only if something is missing, or all that is found is right.
theorem Resolves.faithful_iff (h : Resolves gb gv link c) :
    (c.complete = true → c.toLink = .ok link ∧ Named gb link c) ↔
      (∃ leaf, Reads gb link leaf ∧ ¬leaf.Found gb gv) ∨
        ∀ leaf, Reads gb link leaf → leaf.Right gb gv := by
  have hm : (∃ leaf, Reads gb link leaf ∧ ¬leaf.Found gb gv) ↔ ¬c.complete = true := by
    rw [← h.complete_iff]
    simp
  rw [hm, ← imp_iff_not_or]
  refine imp_congr_right fun hc => ?_
  rw [← h.named_iff hc]
  exact and_iff_right_of_imp Named.toLink

end

end ConditionLink
