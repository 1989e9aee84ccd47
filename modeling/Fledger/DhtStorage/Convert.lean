import Fledger.Crypto.Resolution
import Fledger.Flo.Crypto

-- The flos which answer a read before it times out, in their order.
structure DHTStorage where
  answers : GlobalID → List Flo

def RealmID.globalId (rid : RealmID) (fid : FloID) : GlobalID where
  realmId := rid
  floId   := fid

namespace DHTStorage

section

variable [Sha256] [FromRmpBytes Verifier] [FromRmpBytes BadgeCond]

omit [FromRmpBytes Verifier] [FromRmpBytes BadgeCond] in
def getFlo {α : Type} [FloType α] [FromRmpBytes α] (dht : DHTStorage) (id : GlobalID) :
    Option (FloWrapper α) := do
  let flo ← (dht.answers id).find? (·.globalId = id)
  (FloWrapper.tryFrom flo).toOption

-- Each call needs some of the fuel.
def convert (dht : DHTStorage) (rid : RealmID) : Nat → ConditionLink → Option Condition
  | 0, _         => none
  | fuel + 1, cl =>
    match cl with
    | .verifier ver  =>
      let v : Option FloVerifier := dht.getFlo <| RealmID.globalId rid (Flo.calcFloId ver)
      some <| v.elim .notAvailable fun v => .verifier v.cache
    | .badge version =>
      let b : Option FloBadge := dht.getFlo <| RealmID.globalId rid version.getId
      match b with
      | some b => do
        let bl := b.badgeLink
        some (.badge version bl.id bl.version (← dht.convert rid fuel bl.condition))
      | none   => some .notAvailable
    | .nofT thr vec  => do some (.nofT thr (← vec.mapM (dht.convert rid fuel)))
    | .pass          => some .pass
    | .fail          => some .fail

def startSignCond [Target] {α : Type} (dht : DHTStorage) (fuel : Nat) (fw : FloWrapper α)
    (cl : ConditionLink) : Option (Result UpdateCondSign) := do
  let rid := fw.flo.realm
  let condOld ← dht.convert rid fuel fw.flo.cond
  let condNew ← dht.convert rid fuel cl
  return fw.flo.startSignCond condOld condNew

section

variable (dht : DHTStorage) (rid : RealmID)

def badge (spec : VersionSpec BadgeID) : Option BadgeLink :=
  (dht.getFlo <| RealmID.globalId rid spec.getId : Option FloBadge).map FloBadge.badgeLink

def verifier (ver : KeyPairID) : Option Verifier :=
  (dht.getFlo <| RealmID.globalId rid (Flo.calcFloId ver) : Option FloVerifier).map FloWrapper.cache

-- If there is a flo for the leaf, then it has the key id or a version which has been asked for.
def Genuine : ConditionLink.Leaf → Prop
  | .verifier id => ∀ fw : FloVerifier,
    dht.getFlo (RealmID.globalId rid (Flo.calcFloId id)) = some fw → fw.cache.getId = id
  | .badge spec  => ∀ fw : FloBadge,
    dht.getFlo (RealmID.globalId rid spec.getId) = some fw → spec.accepts fw.flo.version = true
  | _            => True

end

variable {dht : DHTStorage} {rid : RealmID} {fuel : Nat} {cl : ConditionLink} {c : Condition}

open ConditionLink

omit [FromRmpBytes Verifier] [FromRmpBytes BadgeCond] in
theorem getFlo_globalId {α : Type} [FloType α] [FromRmpBytes α] {id : GlobalID} {fw : FloWrapper α}
    (h : dht.getFlo id = some fw) : fw.flo.globalId = id := by
  obtain ⟨flo, hf, ht⟩ := Option.bind_eq_some_iff.mp h
  rw [FloWrapper.tryFrom_flo ht]
  simpa using List.find?_some hf

theorem convert_eq_toCondition :
    dht.convert rid fuel cl = cl.toCondition (dht.badge rid) (dht.verifier rid) fuel := by
  induction fuel generalizing cl
  case zero         => rfl
  case succ fuel hi =>
    cases cl
    case verifier ver  =>
      simp only [convert, toCondition, verifier, Option.elim_map]
      rfl
    case badge version =>
      simp only [convert, toCondition, badge]
      cases hb : (dht.getFlo <| RealmID.globalId rid version.getId : Option FloBadge)
      case none   => rfl
      case some b => simp [hi]
    case nofT thr vec  =>
      have hf : dht.convert rid fuel = toCondition (dht.badge rid) (dht.verifier rid) fuel :=
        funext fun _ => hi
      rw [convert, toCondition, hf]
    case pass          => rfl
    case fail          => rfl

theorem exists_convert : (∃ fuel, dht.convert rid fuel cl = some c) ↔
    Resolves (dht.badge rid) (dht.verifier rid) cl c := by
  simp only [convert_eq_toCondition, exists_toCondition]

theorem genuine_iff {leaf : Leaf} :
    dht.Genuine rid leaf ↔ leaf.Right (dht.badge rid) (dht.verifier rid) := by
  cases leaf
  case verifier id => simp [Genuine, Leaf.Right, verifier]
  case badge spec  =>
    simp only [Genuine, Leaf.Right, badge, Option.map_eq_some_iff, forall_exists_index, and_imp,
      forall_apply_eq_imp_iff₂]
    refine forall₂_congr fun fw hf => ?_
    have hi : fw.flo.floId = spec.getId := congrArg GlobalID.floId (getFlo_globalId hf)
    simp [BadgeLink.fitsVersion, FloBadge.badgeLink, hi]
  case fail        => rfl
  case pass        => rfl

-- What is found at the ids is taken as it is.
theorem convert_faithful_iff (h : dht.convert rid fuel cl = some c) :
    (c.complete = true → c.toLink = .ok cl ∧ Named (dht.badge rid) cl c) ↔
      (∃ leaf, Reads (dht.badge rid) cl leaf ∧
        ¬leaf.Found (dht.badge rid) (dht.verifier rid)) ∨
        ∀ leaf, Reads (dht.badge rid) cl leaf → dht.Genuine rid leaf := by
  simp only [genuine_iff]
  exact (exists_convert.mp ⟨fuel, h⟩).faithful_iff

omit [FromRmpBytes Verifier] [FromRmpBytes BadgeCond] in
-- The new condition is turned into a link again.
theorem startSignCond_ne_panic [Target] {f : Flo} {old new : Condition} :
    f.startSignCond old new ≠ .error .panic ↔ new.incomplete = false := by
  rcases new.toLink_cases with ⟨hn, hl⟩ | ⟨hn, link, hl⟩
  case inl => simp [Flo.startSignCond, hl, hn, bind, Except.bind]
  case inr => simp [Flo.startSignCond, hl, hn, pure, Except.pure]

theorem exists_startSignCond [Target] {α : Type} {fw : FloWrapper α} :
    (∃ fuel r, dht.startSignCond fuel fw cl = some r ∧ r ≠ .error .panic) ↔
      (∃ old, Resolves (dht.badge fw.flo.realm) (dht.verifier fw.flo.realm) fw.flo.cond old) ∧
        ∃ new, Resolves (dht.badge fw.flo.realm) (dht.verifier fw.flo.realm) cl new ∧
          new.incomplete = false := by
  constructor
  case mp  =>
    rintro ⟨fuel, r, h, hr⟩
    obtain ⟨old, ho, h⟩ := Option.bind_eq_some_iff.mp h
    obtain ⟨new, hn, h⟩ := Option.bind_eq_some_iff.mp h
    cases Option.some.inj h
    exact ⟨⟨old, exists_convert.mp ⟨fuel, ho⟩⟩, new, exists_convert.mp ⟨fuel, hn⟩,
      startSignCond_ne_panic.mp hr⟩
  case mpr =>
    rintro ⟨⟨old, ho⟩, new, hn, hi⟩
    obtain ⟨n, ho⟩ := ho.toCondition
    obtain ⟨m, hn⟩ := hn.toCondition
    refine ⟨max n m, fw.flo.startSignCond old new, ?_, startSignCond_ne_panic.mpr hi⟩
    simp [startSignCond, convert_eq_toCondition, ho _ (Nat.le_max_left n m),
      hn _ (Nat.le_max_right n m)]

-- It ends, unless a badge refers back to itself, and what is missing in the new condition is fatal.
theorem resolving_iff [Target] {α : Type} (gb : VersionSpec BadgeID → Option BadgeLink)
    (gv : KeyPairID → Option Verifier) (dht : DHTStorage) (rid : RealmID) (fw : FloWrapper α)
    (cl : ConditionLink) :
    ((∃ fuel c, cl.toCondition gb gv fuel = some c) ↔ cl.Grounded gb) ∧
      ((∃ fuel c, dht.convert rid fuel cl = some c) ↔ cl.Grounded (dht.badge rid)) ∧
      ((∃ fuel r, dht.startSignCond fuel fw cl = some r ∧ r ≠ .error .panic) ↔
        fw.flo.cond.Grounded (dht.badge fw.flo.realm) ∧ cl.Grounded (dht.badge fw.flo.realm) ∧
          ∀ leaf ∈ cl.shape.leaves,
            leaf.Found (dht.badge fw.flo.realm) (dht.verifier fw.flo.realm)) := by
  refine ⟨?toCondition, ?convert, ?startSignCond⟩
  case toCondition   =>
    rw [exists_comm]
    simp only [exists_toCondition, exists_resolves_iff]
  case convert       =>
    rw [exists_comm]
    simp only [exists_convert, exists_resolves_iff]
  case startSignCond =>
    rw [exists_startSignCond, exists_resolves_iff]
    refine and_congr_right fun _ => ?_
    constructor
    case mp  =>
      rintro ⟨new, hn, hi⟩
      exact ⟨exists_resolves_iff.mp ⟨new, hn⟩, hn.incomplete_eq_false.mpr hi⟩
    case mpr =>
      rintro ⟨hg, hf⟩
      obtain ⟨new, hn⟩ := exists_resolves_iff.mpr hg
      exact ⟨new, hn, hn.incomplete_eq_false.mp hf⟩

end

section Concrete

attribute [local instance] Sha256.rolling Ed25519.plain Target.native64

open ConditionLink

open ConditionSignature (alice bob)

-- It only knows some values.
abbrev among {α : Type} [Serialize α] (as : List α) : FromRmpBytes α where
  fromRmpBytes bytes := as.find? (toRmpBytes · = bytes)

def badgeSpec (version : UInt32) : VersionSpec BadgeID :=
  .minimal (Flo.calcFloId .zero) version

abbrev keys : FromRmpBytes Verifier :=
  among [alice.verifier, bob.verifier]

abbrev badges : FromRmpBytes BadgeCond :=
  among [⟨.pass⟩, ⟨.badge (badgeSpec 0)⟩]

attribute [local instance] keys badges

def forced {α : Type} [FloType α] [Serialize α] (forceId : U256) (object : α) : Flo where
  realm         := .zero
  floType       := FloType.floType α
  floConfig     := { forceId := some forceId }
  data          := toRmpBytes object
  dataVersion   := 0
  dataSignature := .new .fail
  nonce         := .zero
  condGenesis   := { cond := .fail, signatures := .new .fail }
  condUpdate    := []

-- A flo which answers all reads, so that it is found with its own id.
def single {α : Type} [FloType α] [Serialize α] (forceId : U256) (object : α) : DHTStorage where
  answers _ := [forced forceId object]

theorem getFlo_single {α : Type} [FloType α] [Serialize α] [FromRmpBytes α] (forceId : U256)
    {object : α} (h : FromRmpBytes.fromRmpBytes (toRmpBytes object) = some object) :
    (single forceId object).getFlo (RealmID.globalId .zero (Flo.calcFloId forceId)) =
      some { flo := forced forceId object, object } := by
  have hg : (forced forceId object).globalId = RealmID.globalId .zero (Flo.calcFloId forceId) := rfl
  have ht : (forced forceId object).floType = FloType.floType α := rfl
  have hf : FromRmpBytes.fromRmpBytes (forced forceId object).data = some object := h
  simp [getFlo, single, hg, FloWrapper.tryFrom, ht, hf, pure, Except.pure, Except.toOption]

theorem read_keys : keys.fromRmpBytes (toRmpBytes alice.verifier) = some alice.verifier ∧
    keys.fromRmpBytes (toRmpBytes bob.verifier) = some bob.verifier := by
  decide +kernel

theorem read_pass : badges.fromRmpBytes (toRmpBytes (⟨.pass⟩ : BadgeCond)) = some ⟨.pass⟩ :=
  List.find?_cons_of_pos (by decide +kernel)

theorem read_badge : badges.fromRmpBytes (toRmpBytes (⟨.badge (badgeSpec 0)⟩ : BadgeCond)) =
    some ⟨.badge (badgeSpec 0)⟩ := by
  refine (List.find?_cons_of_neg (by decide +kernel)).trans ?_
  exact List.find?_cons_of_pos (by decide +kernel)

-- The key of somebody else at the id of alice, and a badge of an older version.
theorem not_faithful :
    ((single alice.getId bob.verifier).convert .zero 1 (.verifier alice.getId) =
        some (.verifier bob.verifier) ∧
      Condition.complete (.verifier bob.verifier) = true ∧
      Condition.toLink (.verifier bob.verifier) ≠ .ok (.verifier alice.getId)) ∧
    ((single .zero (⟨.pass⟩ : BadgeCond)).convert .zero 2 (.badge (badgeSpec 1)) =
        some (.badge (badgeSpec 1) (Flo.calcFloId .zero) 0 .pass) ∧
      Condition.complete (.badge (badgeSpec 1) (Flo.calcFloId .zero) 0 .pass) = true ∧
      (badgeSpec 1).accepts 0 = false) := by
  refine ⟨⟨?key, rfl, ?link⟩, ?badge, rfl, rfl⟩
  case key   => simp [convert, getFlo_single _ read_keys.right, FloWrapper.cache]
  case link  =>
    intro h
    have hi : bob.verifier.getId = alice.getId := by simpa [Condition.toLink] using h
    exact absurd hi (by decide +kernel)
  case badge =>
    have hb : (badgeSpec 1).getId = Flo.calcFloId .zero := rfl
    simp [convert, hb, getFlo_single _ read_pass, FloBadge.badgeLink, FloWrapper.cache, forced,
      Flo.floId, Flo.version]

theorem faithful_alice :
    Condition.toLink (.verifier alice.verifier) = .ok (.verifier alice.getId) ∧
      Named ((single alice.getId alice.verifier).badge .zero) (.verifier alice.getId)
        (.verifier alice.verifier) := by
  have hg := getFlo_single alice.getId read_keys.left
  have hc : (single alice.getId alice.verifier).convert .zero 1 (.verifier alice.getId) =
      some (.verifier alice.verifier) := by
    simp [convert, hg, FloWrapper.cache]
  refine (convert_faithful_iff hc).mpr (.inr ?_) rfl
  rw [forall_reads_verifier]
  intro fw hf
  cases hg.symm.trans hf
  rfl

-- A badge which asks for itself, and a verifier which is not found.
theorem not_resolving :
    (¬∃ fuel c, (single .zero (⟨.badge (badgeSpec 0)⟩ : BadgeCond)).convert .zero fuel
        (.badge (badgeSpec 0)) = some c) ∧
      ({ answers := fun _ => [] } : DHTStorage).startSignCond 1
        { flo := forced .zero bob.verifier, object := bob.verifier } (.verifier alice.getId) =
          some (.error .panic) := by
  constructor
  case left  =>
    rintro ⟨fuel, c, h⟩
    have hg := getFlo_single .zero read_badge
    have hr : Refers ((single .zero (⟨.badge (badgeSpec 0)⟩ : BadgeCond)).badge .zero)
        (badgeSpec 0) (badgeSpec 0) := by
      have hb : (single .zero (⟨.badge (badgeSpec 0)⟩ : BadgeCond)).badge .zero (badgeSpec 0) =
          some (FloBadge.badgeLink { flo := _, object := _ }) := congrArg (Option.map _) hg
      exact ⟨_, hb, mem_leaves_badge.mpr rfl⟩
    have hs := exists_resolves_iff.mp ⟨c, exists_convert.mp ⟨fuel, h⟩⟩
    exact hs _ (mem_leaves_badge.mpr rfl) _ .refl (.single hr)
  case right => rfl

end Concrete

end DHTStorage
