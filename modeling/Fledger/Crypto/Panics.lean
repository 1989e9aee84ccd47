import Fledger.Crypto.Evaluation
import Fledger.Lib.First

namespace Condition

mutual

-- A part which is not available, and which is not behind a badge.
def incomplete : Condition → Bool
  | nofT _ conditions => incompleteAny conditions
  | notAvailable      => true
  | _                 => false

def incompleteAny : List Condition → Bool
  | []      => false
  | c :: cs => c.incomplete || incompleteAny cs

end

-- A badge whose condition is incomplete, or which fits the version and holds such a badge.
def trapped (spec : VersionSpec BadgeID) : Condition → Bool
  | badge _ id version c =>
    c.incomplete || (spec.getId == id && spec.accepts version && c.trapped spec)
  | _                    => false

variable [Sha256] {c : Condition} {cs : List Condition} {link : ConditionLink}
  {spec : VersionSpec BadgeID}

omit [Sha256] in
theorem incompleteAny_eq_true : incompleteAny cs = true ↔ ∃ c ∈ cs, c.incomplete = true := by
  induction cs
  case nil          => simp [incompleteAny]
  case cons c cs hi => simp [incompleteAny, hi]

-- There is a link for everything but what is incomplete.
theorem toLink_cases (c : Condition) : c.incomplete = true ∧ c.toLink = .error .panic ∨
    c.incomplete = false ∧ ∃ link, c.toLink = .ok link := by
  induction c using rec'
  case nofT thr cs hi =>
    have h : incompleteAny cs = true ∧ toLinks cs = .error .panic ∨
        incompleteAny cs = false ∧ ∃ links, toLinks cs = .ok links := by
      induction cs
      case nil           => exact .inr ⟨rfl, [], rfl⟩
      case cons c cs his =>
        obtain ⟨hc, hi⟩ := List.forall_mem_cons.mp hi
        rw [incompleteAny, toLinks]
        rcases hc with ⟨hc, ht⟩ | ⟨hc, link, ht⟩
        case inl => exact .inl ⟨by rw [hc, Bool.true_or], by rw [ht]; rfl⟩
        case inr =>
          rw [hc, ht, Bool.false_or]
          refine his hi |>.imp (And.imp_right fun h => ?_) (And.imp_right fun ⟨links, h⟩ => ?_)
          case refine_1 => rw [h]; rfl
          case refine_2 => exact ⟨link :: links, by rw [h]; rfl⟩
    rw [incomplete, toLink]
    refine h.imp (And.imp_right fun h => ?_) (And.imp_right fun ⟨links, h⟩ => ?_)
    case refine_1 => rw [h]; rfl
    case refine_2 => exact ⟨.nofT thr links, by rw [h]; rfl⟩
  case notAvailable => exact .inl ⟨rfl, rfl⟩
  all_goals exact .inr ⟨rfl, _, rfl⟩

theorem toLink_eq_panic : c.toLink = .error .panic ↔ c.incomplete = true := by
  rcases c.toLink_cases with ⟨hc, ht⟩ | ⟨hc, _, ht⟩
  case inl => exact iff_of_true ht hc
  case inr => simp [hc, ht]

theorem equalBadge_eq_panic : c.equalBadge spec = .error .panic ↔ c.trapped spec = true := by
  induction c using rec'
  case badge s id version c hi =>
    simp only [equalBadge, trapped, Outcome.bind_eq_error, toLink_eq_panic, Bool.or_eq_true]
    constructor
    case mp =>
      rintro (h | ⟨_, _, h⟩)
      case inl => exact .inl h
      case inr =>
        split at h
        case isFalse    => exact absurd h Outcome.pure_ne_error
        case isTrue hf  =>
          rw [Outcome.bind_eq_error, hi] at h
          rcases h with h | ⟨_, _, h⟩
          · exact .inr (by rw [BadgeLink.fitsVersion] at hf; rw [hf, h, Bool.true_and])
          · exact absurd h Outcome.pure_ne_error
    case mpr =>
      rintro (h | h)
      case inl => exact .inl h
      case inr =>
        rw [Bool.and_eq_true] at h
        rcases c.toLink_cases with ⟨hc, _⟩ | ⟨_, link, ht⟩
        case inl => exact .inl hc
        case inr =>
          refine .inr ⟨link, ht, ?_⟩
          rw [if_pos (by rw [BadgeLink.fitsVersion]; exact h.left), Outcome.bind_eq_error, hi]
          exact .inl h.right
  all_goals simp [equalBadge, trapped, Outcome.pure_ne_error]

theorem equalLink_eq_panic_first : c.equalLink link = .error .panic ↔
    First c.Matches (fun leaf => ∃ spec, leaf = .badge spec ∧ c.trapped spec = true)
      link.shape.leaves := by
  induction link using ConditionLink.rec'
  case nofT thr links hi =>
    rw [equalLink, ConditionLink.shape, Formula.leaves]
    induction links
    case nil => simp [equalLinks, ConditionLink.shapes, Formula.leavesAll, First.not_nil,
      Outcome.pure_ne_error]
    case cons l links his =>
      obtain ⟨hl, hi⟩ := List.forall_mem_cons.mp hi
      rw [equalLinks, ConditionLink.shapes, Formula.leavesAll, First.append_iff, ← his hi, ← hl,
        Outcome.bind_eq_error, ← equalLink_eq_true]
      refine or_congr_right ⟨?mp, ?mpr⟩
      case mp =>
        rintro ⟨b, hb, h⟩
        cases b
        case false => exact absurd h Outcome.pure_ne_error
        case true  => exact ⟨hb, h⟩
      case mpr => exact fun h => ⟨true, h.left, h.right⟩
  case badge spec =>
    rw [equalLink, equalBadge_eq_panic, ConditionLink.shape, Formula.leaves, First.singleton_iff]
    simp
  case verifier id =>
    cases c <;> simp [equalLink, ConditionLink.shape, Formula.leaves, First.singleton_iff,
      Outcome.pure_ne_error]
  case fail => simp [equalLink, ConditionLink.shape, Formula.leaves, First.singleton_iff,
    Outcome.pure_ne_error]
  case pass => simp [equalLink, ConditionLink.shape, Formula.leaves, First.singleton_iff,
    Outcome.pure_ne_error]

theorem not_matches_of_trapped {leaf : ConditionLink.Leaf} (h : c.trapped spec = true) :
    ¬c.Matches leaf := by
  cases c
  case badge => cases leaf <;> simp [Matches]
  all_goals cases h

-- A badge is compared to the first leaf only, as it is not equal to any.
theorem equalLink_eq_panic : c.equalLink link = .error .panic ↔
    ∃ spec, link.shape.leaves.head? = some (.badge spec) ∧ c.trapped spec = true := by
  rw [equalLink_eq_panic_first]
  cases link.shape.leaves
  case nil            => simp [First.not_nil]
  case cons leaf rest =>
    rw [First.cons_iff, or_iff_left]
    · simp
    · rintro ⟨hm, hf⟩
      obtain ⟨_, _, spec, _, ht⟩ := hf.exists_mem
      exact not_matches_of_trapped ht hm

end Condition

namespace ConditionSignature

variable [Sha256] [Ed25519] (cs : ConditionSignature) (digest : U256)

-- There is a signature of the verifier which has not the length of a signature.
def Malformed (v : Verifier) : Prop :=
  ∃ sig, cs.signatures.lookup v.getId = some sig ∧ sig.length ≠ 64

-- In the order of the verifiers, the first signature which is not valid is malformed.
def Garbled : Prop :=
  First (fun v => ¬cs.Rejected digest v) cs.Malformed cs.condition.formula.leaves

variable {cs digest} {c : Condition}

omit [Sha256] in
theorem verify_eq_panic {v : Verifier} {msg : Bytes} {sig : Signature} :
    v.verify msg sig = .error .panic ↔ sig.length ≠ 64 := by
  cases v
  case ed25519 v =>
    rw [Verifier.verify, VerifierEd25519.verify]
    split
    case isTrue h  => exact iff_of_true rfl h
    case isFalse h =>
      refine iff_of_false (fun he => ?_) h
      split at he
      case isTrue  => exact Outcome.pure_ne_error he
      case isFalse => cases he

theorem verifyConds_eq_panic {n : Nat} {conditions : List Condition}
    (h : ∀ c ∈ conditions, cs.verifyCond digest c = .error .panic ↔
      First (fun v => ¬cs.Rejected digest v) cs.Malformed c.formula.leaves) :
    cs.verifyConds digest n conditions = .error .panic ↔
      First (fun v => ¬cs.Rejected digest v) cs.Malformed
        (Formula.leavesAll (conditions.map Condition.formula)) := by
  induction conditions generalizing n
  case nil                  =>
    simp [verifyConds, Formula.leavesAll, First.not_nil, Outcome.pure_ne_error]
  case cons c conditions hi =>
    obtain ⟨hc, h⟩ := List.forall_mem_cons.mp h
    rw [verifyConds, List.map_cons, Formula.leavesAll, First.append_iff, ← hc, ← verifyCond_isOk,
      Outcome.bind_eq_error]
    refine or_congr_right ⟨?mp, ?mpr⟩
    case mp =>
      rintro ⟨b, hb, he⟩
      cases b
      case false => exact ⟨⟨false, hb⟩, hi h |>.mp he⟩
      case true  => exact ⟨⟨true, hb⟩, hi h |>.mp he⟩
    case mpr =>
      rintro ⟨⟨b, hb⟩, he⟩
      refine ⟨b, hb, ?_⟩
      cases b
      case false => exact hi h |>.mpr he
      case true  => exact hi h |>.mpr he

-- All signatures are converted, until one of them is not valid.
theorem verifyCond_eq_panic : cs.verifyCond digest c = .error .panic ↔
    First (fun v => ¬cs.Rejected digest v) cs.Malformed c.formula.leaves := by
  induction c using Condition.rec'
  case verifier v =>
    rw [verifyCond, Condition.formula, Formula.leaves, First.singleton_iff, Malformed]
    cases hl : cs.signatures.lookup v.getId
    case none     => simp [Outcome.pure_ne_error]
    case some sig =>
      have hv : (do v.verify digest.bytes sig; return true : Result Bool) = .error .panic ↔
          sig.length ≠ 64 := by
        rw [Outcome.bind_eq_error, verify_eq_panic]
        refine or_iff_left ?_
        rintro ⟨_, _, h⟩
        exact Outcome.pure_ne_error h
      refine hv.trans ⟨fun h => ⟨sig, rfl, h⟩, ?_⟩
      rintro ⟨_, hs, h⟩
      exact Option.some.inj hs ▸ h
  case badge hi => exact hi
  case nofT t conditions hi =>
    rw [verifyCond, Condition.formula, Formula.leaves, Condition.formulas_eq_map,
      ← verifyConds_eq_panic (n := 0) hi, Outcome.bind_eq_error]
    simp [Outcome.pure_ne_error]
  all_goals simp [verifyCond, Condition.formula, Formula.leaves, First.not_nil,
    Outcome.pure_ne_error]

theorem verifyDigest_eq_panic : cs.verifyDigest digest = .error .panic ↔ cs.Garbled digest :=
  verifyCond_eq_panic

end ConditionSignature
