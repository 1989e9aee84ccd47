import Fledger.DhtStorage.Upsert
import Fledger.Flo.Completeness
import Fledger.Flo.Genesis

namespace RealmStorage

variable [Sha256] {s s' : RealmStorage} {id : FloID} {f flo : Flo} {estimated stored : Int}
  {isNew : Bool} {cuckoos : List FloID}

-- What is found under an id has this id.
theorem Wf.floId_of_getFloCuckoo (h : s.Wf) (hg : s.getFloCuckoo id = some (flo, cuckoos)) :
    flo.floId = id := by
  have ⟨_, hl, hf, _⟩ := getFloCuckoo_eq_some.mp hg
  exact hf ▸ h.keyed hl

end RealmStorage

namespace Flo

-- The owners of a flo whose id is not forced keep it, except if somebody forces this very id.
theorem owners_of_floId [Sha256] {f g : Flo} (hf : f.GenesisFits) (hg : g.GenesisFits)
    (hs : f.NoCollision g) (hfid : f.floConfig.forceId = none) :
    (f.floId = g.floId → f.SameGenesis g ∨ g.floConfig.forceId = some f.digestCondGenesis) ∧
    (g.floConfig.forceId = none → ∀ s, RealmStorage.Reachable s → ∀ estimated stored s' isNew,
      s.Upserts estimated stored g s' isNew → ∀ cuckoos,
        s'.getFloCuckoo f.floId = some (g, cuckoos) → f.SameGenesis g) := by
  have h := genesis_of_floId_eq hf hg hs hfid
  constructor
  case left => exact h
  case right =>
    intro hgid s hr _ _ s' _ hu _ hget
    have hid := (hr.wf.upserts hu).floId_of_getFloCuckoo hget
    have hforce : g.floConfig.forceId ≠ some f.digestCondGenesis := hgid ▸ Option.some_ne_none _ |>.symm
    exact (h hid.symm).resolve_right hforce

end Flo

namespace Flo

attribute [local instance] Sha256.rolling Ed25519.plain Target.native64

-- A flo which everybody can update, with whatever id.
def squatter (id : U256) : Flo where
  realm         := .zero
  floType       := "type"
  floConfig     := { forceId := some id }
  data          := []
  dataVersion   := 1
  dataSignature := .new .pass
  nonce         := .zero
  condGenesis   := { cond := .pass, signatures := .new .pass }
  condUpdate    := []

-- Everybody can take over the id of a flo which has an owner.
theorem squatter_takes_id : ∃ f,
    create { cond := soleCondition 1, signers := [soleSigner 1] } = .ok f ∧
    f.verify = .ok true ∧ (squatter f.digestCondGenesis).verify = .ok true ∧
    f.floConfig.forceId = none ∧ f.floId = (squatter f.digestCondGenesis).floId ∧
    f.condGenesis.cond ≠ (squatter f.digestCondGenesis).condGenesis.cond := by
  obtain ⟨f, hf, h⟩ := Outcome.bind_eq_ok.mp <| show
    (create { cond := soleCondition 1, signers := [soleSigner 1] } >>= fun f => do
      let owned := match f.condGenesis.cond with
        | .verifier _ => true
        | _           => false
      return (← f.verify) && f.floConfig.forceId.isNone && owned) = .ok true by decide +kernel
  obtain ⟨b, hv, hb⟩ := Outcome.bind_eq_ok.mp h
  simp only [Outcome.pure_eq_ok, Bool.and_eq_true, Option.isNone_iff_eq_none] at hb
  obtain ⟨⟨hb, hid⟩, howned⟩ := hb
  refine ⟨f, hf, hb ▸ hv, rfl, hid, ?_, fun hs => ?_⟩
  case refine_1 => rw [floId, hid]; rfl
  case refine_2 =>
    rw [show f.condGenesis.cond = .pass from hs] at howned
    exact Bool.false_ne_true howned

-- A flo whose id is not forced, and a later version of it.
def unforced : Flo :=
  { squatter .zero with floConfig := {} }

def unforcedLater : Flo :=
  { unforced with data := [7], dataVersion := 2 }

theorem owners_of_floId_unforced :
    (unforced.floId = unforcedLater.floId → unforced.SameGenesis unforcedLater ∨
      unforcedLater.floConfig.forceId = some unforced.digestCondGenesis) ∧
    (unforcedLater.floConfig.forceId = none → ∀ s, RealmStorage.Reachable s →
      ∀ estimated stored s' isNew, s.Upserts estimated stored unforcedLater s' isNew → ∀ cuckoos,
        s'.getFloCuckoo unforced.floId = some (unforcedLater, cuckoos) →
          unforced.SameGenesis unforcedLater) := by
  have hparts : PartsFit unforced.genesisParts := by
    unfold PartsFit
    decide +kernel
  have hs : unforced.NoCollision unforcedLater := by
    unfold NoCollision
    decide +kernel
  exact owners_of_floId ⟨hparts, trivial⟩ ⟨hparts, trivial⟩ hs rfl

end Flo
