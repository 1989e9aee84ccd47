import Fledger.Crypto.Access

-- What a link asks for at its leaves, where all its thresholds have been taken.
inductive ConditionLink.Leaf
  | verifier (id : KeyPairID)
  | badge (spec : VersionSpec BadgeID)
  | fail
  | pass

namespace ConditionLink

theorem rec' {P : ConditionLink → Prop} (verifier : ∀ id, P (verifier id))
    (badge : ∀ spec, P (badge spec)) (nofT : ∀ thr links, (∀ l ∈ links, P l) → P (nofT thr links))
    (fail : P fail) (pass : P pass) (link : ConditionLink) : P link :=
  @ConditionLink.rec P (fun links => ∀ l ∈ links, P l) verifier badge nofT fail pass (by simp)
    (fun _ _ hl hls => List.forall_mem_cons.mpr ⟨hl, hls⟩) link

mutual

def shape : ConditionLink → Formula Leaf
  | verifier id    => .leaf (.verifier id)
  | badge spec     => .leaf (.badge spec)
  | nofT thr links => .atLeast thr.toNat (shapes links)
  | fail           => .leaf .fail
  | pass           => .leaf .pass

def shapes : List ConditionLink → List (Formula Leaf)
  | []            => []
  | link :: links => link.shape :: shapes links

end

theorem shapes_eq_map (links : List ConditionLink) : shapes links = links.map shape := by
  induction links
  case nil => rfl
  case cons hi => rw [shapes, hi, List.map_cons]

def Leaf.formula (resolve : VersionSpec BadgeID → Formula KeyPairID) : Leaf → Formula KeyPairID
  | verifier id => .leaf id
  | badge spec  => resolve spec
  | fail        => .const false
  | pass        => .const true

-- The keys which have to sign, given what the badges stand for.
def formula (resolve : VersionSpec BadgeID → Formula KeyPairID) (link : ConditionLink) :
    Formula KeyPairID :=
  link.shape.bind (Leaf.formula resolve)

def Leaf.possible : Leaf → Bool
  | fail => false
  | _    => true

-- No threshold in the link exceeds what its members can reach.
def attainable (link : ConditionLink) : Bool :=
  link.shape.eval Leaf.possible

-- The link is a single key, a constant, or a combination without any leaves.
def plain : ConditionLink → Bool
  | badge _        => false
  | nofT thr links => (nofT thr links).shape.leaves.isEmpty
  | _              => true

end ConditionLink

namespace Condition

theorem rec' {P : Condition → Prop} (verifier : ∀ v, P (verifier v))
    (badge : ∀ spec id ver c, P c → P (badge spec id ver c))
    (nofT : ∀ thr conditions, (∀ c ∈ conditions, P c) → P (nofT thr conditions))
    (notAvailable : P notAvailable) (fail : P fail) (pass : P pass) (c : Condition) : P c :=
  @Condition.rec P (fun conditions => ∀ c ∈ conditions, P c) verifier badge nofT notAvailable fail
    pass (by simp) (fun _ _ hc hcs => List.forall_mem_cons.mpr ⟨hc, hcs⟩) c

mutual

def formula : Condition → Formula Verifier
  | verifier v          => .leaf v
  | badge _ _ _ c       => c.formula
  | nofT thr conditions => .atLeast thr.toNat (formulas conditions)
  | pass                => .const true
  | notAvailable | fail => .const false

def formulas : List Condition → List (Formula Verifier)
  | []      => []
  | c :: cs => c.formula :: formulas cs

end

theorem formulas_eq_map (cs : List Condition) : formulas cs = cs.map formula := by
  induction cs
  case nil => rfl
  case cons hi => rw [formulas, hi, List.map_cons]

mutual

-- The badges which are shipped with the condition.
def badges : Condition → List (VersionSpec BadgeID × Condition)
  | badge spec _ _ c  => (spec, c) :: c.badges
  | nofT _ conditions => badgesAll conditions
  | _                 => []

def badgesAll : List Condition → List (VersionSpec BadgeID × Condition)
  | []      => []
  | c :: cs => c.badges ++ badgesAll cs

end

variable [Sha256]

def resolve (c : Condition) (spec : VersionSpec BadgeID) : Formula KeyPairID :=
  (c.badges.find? (·.1 = spec)).elim (.const false) fun (_, condition) =>
    condition.formula.bind fun v => .leaf v.getId

-- The leaves which `equal_link` finds in the condition.
def Matches (c : Condition) : ConditionLink.Leaf → Prop
  | .verifier id => ∃ v, c = verifier v ∧ v.getId = id
  | .badge _     => False
  | .fail        => c = fail
  | .pass        => c = pass

variable {c : Condition} {link : ConditionLink} {spec : VersionSpec BadgeID} {b : Bool}

-- A badge is only equal to a link if its own condition already is.
theorem equalBadge_ne_true : c.equalBadge spec ≠ .ok true := by
  induction c using rec' <;> simp only [equalBadge, Outcome.pure_eq_ok, Outcome.bind_eq_ok, ne_eq,
    Bool.false_eq_true, not_false_eq_true]
  case badge hi =>
    rintro ⟨_, _, h⟩
    split at h
    case isTrue =>
      simp only [Outcome.bind_eq_ok, Outcome.pure_eq_ok, Bool.and_eq_true] at h
      obtain ⟨_, he, ht, _⟩ := h
      exact hi (ht ▸ he)
    case isFalse => simp at h

theorem equalLinks_eq_true {links : List ConditionLink} :
    c.equalLinks links = .ok true ↔ ∀ link ∈ links, c.equalLink link = .ok true := by
  induction links
  case nil => simp [equalLinks]
  case cons link links hi =>
    simp only [equalLinks, Outcome.bind_eq_ok, List.forall_mem_cons, ← hi]
    constructor
    case mp =>
      rintro ⟨b, hb, h⟩
      cases b <;> simp at h
      exact ⟨hb, h⟩
    case mpr =>
      rintro ⟨hb, h⟩
      exact ⟨true, hb, by simpa using h⟩

-- The thresholds of the link are ignored: the condition is compared to each of its leaves.
theorem equalLink_eq_true :
    c.equalLink link = .ok true ↔ ∀ leaf ∈ link.shape.leaves, c.Matches leaf := by
  induction link using ConditionLink.rec'
  case verifier id =>
    cases c <;> simp [equalLink, ConditionLink.shape, Formula.leaves, Matches]
  case badge spec =>
    simp [equalLink, equalBadge_ne_true, ConditionLink.shape, Formula.leaves, Matches]
  case nofT thr links hi =>
    simp only [equalLink, equalLinks_eq_true, ConditionLink.shape, Formula.leaves,
      Formula.mem_leavesAll, ConditionLink.shapes_eq_map, List.mem_map]
    constructor
    case mp =>
      rintro h leaf ⟨_, ⟨link, hl, hs⟩, hm⟩
      exact hi link hl |>.mp (h link hl) leaf (hs ▸ hm)
    case mpr =>
      intro h link hl
      exact hi link hl |>.mpr fun leaf hm => h leaf ⟨_, ⟨link, hl, rfl⟩, hm⟩
  case fail => cases c <;> simp [equalLink, ConditionLink.shape, Formula.leaves, Matches]
  case pass => cases c <;> simp [equalLink, ConditionLink.shape, Formula.leaves, Matches]

-- Of the conditions which can have a link, only the plain ones are equal to it.
theorem equalLink_toLink (h : c.toLink = .ok link) :
    c.equalLink link = .ok true ↔ link.plain = true := by
  rw [equalLink_eq_true]
  cases c <;> simp only [toLink, Outcome.pure_eq_ok, Outcome.bind_eq_ok, Outcome.throw_ne_ok] at h
  case nofT =>
    obtain ⟨links, _, h⟩ := h
    subst h
    rw [ConditionLink.plain, List.isEmpty_iff, List.eq_nil_iff_forall_not_mem]
    refine forall₂_congr fun leaf _ => ⟨fun hm => ?_, fun hm => hm.elim⟩
    cases leaf <;> simp [Matches] at hm
  all_goals
    subst h
    simp [ConditionLink.shape, Formula.leaves, Matches, ConditionLink.plain]

end Condition

namespace ConditionSignature

variable [Sha256] [Ed25519] (cs : ConditionSignature) (digest : U256)

-- Whether there is a valid signature of the verifier.
def signed (v : Verifier) : Bool :=
  (cs.signatures.lookup v.getId).any (v.accepts digest.bytes)

def SignedBy (id : KeyPairID) : Prop :=
  ∃ v : Verifier, v.getId = id ∧ cs.signed digest v = true

-- There are valid signatures by a set of keys which fulfils the link.
def Satisfies (link : ConditionLink) : Prop :=
  ∃ keys : List KeyPairID, (∀ id ∈ keys, cs.SignedBy digest id) ∧
    (link.formula cs.condition.resolve).eval (fun id => id ∈ keys) = true

variable {cs digest} {c : Condition} {link : ConditionLink} {b : Bool} {n m : Nat}

theorem verifyConds_eq_ok {conditions : List Condition}
    (h : ∀ c ∈ conditions, ∀ b, cs.verifyCond digest c = .ok b → c.formula.eval (cs.signed digest) = b)
    (hv : cs.verifyConds digest n conditions = .ok m) :
    m = n + (conditions.map Condition.formula).countP (Formula.eval (cs.signed digest)) := by
  induction conditions generalizing n <;> simp only [verifyConds, Outcome.pure_eq_ok,
    Outcome.bind_eq_ok] at hv
  case nil => simp [hv]
  case cons c conditions hi =>
    obtain ⟨b, hb, hv⟩ := hv
    have hc := h c (by simp) b hb
    have hi {n} (hv : cs.verifyConds digest n conditions = .ok m) :=
      hi (fun c hm => h c (by simp [hm])) hv
    cases b <;> simp only [Bool.false_eq_true, if_false, if_true] at hv
    case true  => rw [hi hv]; simp [hc]; omega
    case false => rw [hi hv]; simp [hc]

-- Where it does not fail, `verify_cond` evaluates the formula of the condition.
theorem verifyCond_eq_ok (h : cs.verifyCond digest c = .ok b) :
    c.formula.eval (cs.signed digest) = b := by
  induction c using Condition.rec' generalizing b <;> simp only [verifyCond, Outcome.pure_eq_ok,
    Outcome.bind_eq_ok] at h
  case verifier v =>
    simp only [Condition.formula, Formula.eval_leaf, signed]
    split at h
    case h_1 sig hs =>
      simp only [Outcome.bind_eq_ok, Outcome.pure_eq_ok] at h
      obtain ⟨_, hv, hb⟩ := h
      simp [hs, Verifier.verify_eq_ok.mp hv, ← hb]
    case h_2 hs => simp at h; simp [hs, ← h]
  case badge hi => exact hi h
  case nofT thr conditions hi =>
    obtain ⟨n, hn, hb⟩ := h
    have hn := verifyConds_eq_ok (fun c hc b => hi c hc) hn
    simp [Condition.formula, Condition.formulas_eq_map, ← hb, hn]
  all_goals simpa [Condition.formula] using h

-- A condition which was matched and verified provides every leaf of the link, and so it satisfies
-- the link whenever this is possible at all.
theorem satisfies_iff_attainable (he : cs.condition.equalLink link = .ok true)
    (hv : cs.verifyDigest digest = .ok true) : cs.Satisfies digest link ↔ link.attainable := by
  have hm := Condition.equalLink_eq_true.mp he
  have hv := verifyCond_eq_ok hv
  have hp : ∀ leaf ∈ link.shape.leaves, leaf.possible = true := by
    intro leaf hl
    have hc := hm leaf hl
    cases leaf <;> simp only [ConditionLink.Leaf.possible]
    case fail => simp [Condition.Matches] at hc; simp [hc, Condition.formula] at hv
  rw [ConditionLink.attainable, Formula.eval_eq_satisfiable hp]
  constructor
  case mp =>
    intro ⟨_, _, h⟩
    rw [ConditionLink.formula, Formula.eval_bind] at h
    exact Formula.satisfiable_of_eval h
  case mpr =>
    intro h
    let keys := link.shape.leaves.filterMap fun | .verifier id => some id | _ => none
    exists keys
    constructor
    case left =>
      intro id hid
      have ⟨leaf, hl, hk⟩ := List.mem_filterMap.mp hid
      have hc := hm leaf hl
      cases leaf <;> simp at hk
      case verifier =>
        have ⟨v, hc, hv'⟩ := hc
        simp only [hc, Condition.formula, Formula.eval_leaf] at hv
        exact ⟨v, hk ▸ hv', hv⟩
    case right =>
      rw [ConditionLink.formula, Formula.eval_bind]
      refine Formula.eval_eq_satisfiable (fun leaf hl => ?_) |>.trans h
      have hc := hm leaf hl
      cases leaf <;> simp [ConditionLink.Leaf.formula]
      case verifier id => exact List.mem_filterMap.mpr ⟨_, hl, rfl⟩
      case badge => exact hc.elim
      case fail  => simpa [ConditionLink.Leaf.possible] using hp _ hl

end ConditionSignature
