import Fledger.DhtStorage.Bound
import Mathlib.Data.Nat.PSub

-- The operations with checked subtractions: where the size would become negative there is no result.
namespace RealmStorage.Checked

def storeCuckooId (s : RealmStorage) (parent cuckoo : FloID) : Option RealmStorage :=
  match s.flos.lookup parent with
  | some fs =>
    if cuckoo ∉ fs.cuckoos then do
      let fs' := { fs with cuckoos := fs.cuckoos ++ [cuckoo] }
      let size ← s.size.psub fs.size
      return { s with
        flos := s.flos.insert parent fs'
        size := size + fs'.size
      }
    else return s
  | none => return s

def storeCuckooIds (s : RealmStorage) (parent : FloID) (cuckoos : List FloID) :
    Option RealmStorage :=
  cuckoos.foldlM (fun s cuckoo => storeCuckooId s parent cuckoo) s

def removeEntry (s : RealmStorage) (id : FloID) : Option RealmStorage :=
  match s.flos.lookup id with
  | some df => do
    let distance := KNode.getDepth s.root id
    let size ← s.size.psub df.size
    return { s with
      flos      := s.flos.erase id
      distances := HashMap.modify s.distances distance fun v => v.filter (· ≠ id)
      size      := size
    }
  | none => return s

def removeFurthest (s : RealmStorage) : Option RealmStorage :=
  let depths := HashMap.pairs s.distances |>.filterMap fun (dist, flos) =>
    if (flos.filter (· ≠ s.realmId)).length > 0 then some dist else none
  match depths.min? with
  | some furthest =>
    match (s.distances.lookup furthest).bind fun ids =>
        (ids.filter (· ≠ s.realmId)).getLast? with
    | some id => removeEntry s id
    | none    => return s
  | none => return s

variable [Sha256]

def adoptCuckoo (s : RealmStorage) (flo : Flo) : Option RealmStorage :=
  match flo.floConfig.cuckooParent with
  | some pid => storeCuckooId s pid flo.floId
  | none     => return s

def put (s : RealmStorage) (now : Int) (flo : Flo) : Option RealmStorage := do
  let id := flo.floId
  let s ← removeEntry s id
  let depth := KNode.getDepth s.root id
  let df := FloStorage.ofFlo now flo
  return { s with
    distances := s.distances.insert depth (s.idsAt depth ++ [id])
    size      := s.size + df.size
    flos      := s.flos.insert id df
  }

def new (dhtConfig : DHTConfig) (root : NodeID) (now : Int) (realm : FloRealm) :
    Option RealmStorage :=
  let s : RealmStorage := {
    dhtConfig, root
    realmConfig := realm.cache.getConfig
    realmId     := realm.flo.realm
    flos        := ∅
    distances   := ∅
    size        := 0
  }
  put s now realm.flo

def insertFlo (s : RealmStorage) (estimated stored : Int) (flo : Flo) :
    Option (RealmStorage × Bool) :=
  match s.flos.lookup flo.floId with
  | some old =>
    if old.version < flo.version then return (← put s stored flo, true)
    else return (s, false)
  | none =>
    let floSize := (FloStorage.ofFlo estimated flo).size
    if s.size + floSize ≤ s.realmConfig.maxSpace then return (← put s stored flo, true)
    else
      let sizeAbove := List.range (KNode.getDepth s.root flo.floId) |>.map s.sizeAtDepth |>.sum
      if floSize ≤ sizeAbove then return (← put s stored flo, true)
      else return (s, true)

-- The inner option is the fuel.
def upsertFlo (fuel : Nat) (s : RealmStorage) (estimated stored : Int) (flo : Flo) :
    Option (Option (RealmStorage × Bool)) :=
  if flo.size * 3 > s.realmConfig.maxSpace then return some (s, false)
  else do
    let (s, isNewFlo) ← insertFlo (← adoptCuckoo s flo) estimated stored flo
    let s' ← Loop.runM (fun s => decide (s.size > s.realmConfig.maxSpace)) removeFurthest fuel s
    return s'.map (·, isNewFlo)

end RealmStorage.Checked

namespace RealmStorage

variable [Sha256] {s : RealmStorage} {flo : Flo}

-- An entry is not larger than all entries together.
theorem Wf.size_le (h : s.Wf) {id : FloID} {fs : FloStorage} (hl : s.flos.lookup id = some fs) :
    fs.size ≤ s.size := by
  rw [h.size_eq, HashMap.sum_eq_of_lookup hl]
  exact Nat.le_add_right ..

theorem Wf.checked_storeCuckooId (h : s.Wf) (parent cuckoo : FloID) :
    Checked.storeCuckooId s parent cuckoo = some (s.storeCuckooId parent cuckoo) := by
  unfold Checked.storeCuckooId RealmStorage.storeCuckooId
  cases hl : s.flos.lookup parent
  case none    => rfl
  case some fs =>
    dsimp only
    split
    case isTrue  => rw [Nat.psub_eq_sub (h.size_le hl)]; rfl
    case isFalse => rfl

theorem Wf.checked_storeCuckooIds (h : s.Wf) (parent : FloID) (cuckoos : List FloID) :
    Checked.storeCuckooIds s parent cuckoos = some (s.storeCuckooIds parent cuckoos) := by
  unfold Checked.storeCuckooIds RealmStorage.storeCuckooIds
  induction cuckoos generalizing s
  case nil => rfl
  case cons c cuckoos hi =>
    rw [List.foldlM_cons, h.checked_storeCuckooId, Option.bind_eq_bind, Option.bind_some]
    exact hi <| h.storeCuckooId parent c

theorem Wf.checked_removeEntry (h : s.Wf) (id : FloID) :
    Checked.removeEntry s id = some (s.removeEntry id) := by
  unfold Checked.removeEntry RealmStorage.removeEntry
  cases hl : s.flos.lookup id
  case none => rfl
  case some => dsimp only; rw [Nat.psub_eq_sub (h.size_le hl)]; rfl

theorem Wf.checked_put (h : s.Wf) (now : Int) (flo : Flo) :
    Checked.put s now flo = some (s.put now flo) := by
  rw [Checked.put, h.checked_removeEntry]
  rfl

theorem Wf.checked_removeFurthest (h : s.Wf) :
    Checked.removeFurthest s = some s.removeFurthest := by
  let depths := HashMap.pairs s.distances |>.filterMap fun (dist, flos) =>
    if (flos.filter (· ≠ s.realmId)).length > 0 then some dist else none
  cases hd : depths.min? <;> simp only [Checked.removeFurthest, RealmStorage.removeFurthest]
  case none => rw [hd]; rfl
  case some depth =>
    rw [hd]
    cases hf : (s.distances.lookup depth).bind fun ids => (ids.filter (· ≠ s.realmId)).getLast? <;>
      dsimp only <;> rw [hf]
    case none    => rfl
    case some id => exact h.checked_removeEntry id

theorem Wf.checked_adoptCuckoo (h : s.Wf) (flo : Flo) :
    Checked.adoptCuckoo s flo = some (s.adoptCuckoo flo) := by
  unfold Checked.adoptCuckoo RealmStorage.adoptCuckoo
  cases flo.floConfig.cuckooParent
  case some => exact h.checked_storeCuckooId ..
  case none => rfl

theorem Wf.checked_insertFlo (h : s.Wf) (estimated stored : Int) (flo : Flo) :
    Checked.insertFlo s estimated stored flo = some (s.insertFlo estimated stored flo) := by
  unfold Checked.insertFlo RealmStorage.insertFlo
  rw [h.checked_put]
  cases s.flos.lookup flo.floId
  case some => dsimp only; split <;> rfl
  case none => dsimp only; split_ifs <;> rfl

theorem Wf.checked_loop (h : s.Wf) (fuel : Nat) :
    Loop.runM (fun s => decide (s.size > s.realmConfig.maxSpace)) Checked.removeFurthest fuel s =
      some (Loop.run (fun s => decide (s.size > s.realmConfig.maxSpace))
        RealmStorage.removeFurthest fuel s) :=
  Loop.runM_eq_pure h (fun _ hs => ⟨hs.checked_removeFurthest, hs.removeFurthest⟩) fuel

theorem Wf.checked_upsertFlo (h : s.Wf) (fuel : Nat) (estimated stored : Int) (flo : Flo) :
    Checked.upsertFlo fuel s estimated stored flo = some (s.upsertFlo fuel estimated stored flo) := by
  unfold Checked.upsertFlo RealmStorage.upsertFlo
  split
  case isTrue  => rfl
  case isFalse =>
    have ha := h.adoptCuckoo flo
    have hi := ha.insertFlo estimated stored flo
    have hr := hi.checked_loop fuel
    rw [h.checked_adoptCuckoo, Option.bind_eq_bind, Option.bind_some, ha.checked_insertFlo]
    simp only [Option.bind_eq_bind, Option.bind_some, hr]
    rfl

theorem checked_new (dhtConfig : DHTConfig) (root : NodeID) (now : Int) (realm : FloRealm) :
    Checked.new dhtConfig root now realm = some (.new dhtConfig root now realm) := by
  refine Wf.checked_put ⟨rfl, ?_, ?_, ?_⟩ now realm.flo
  all_goals simp [idsAt, AList.lookup_empty]

-- No subtraction of an operation goes below zero.
structure Checks (s : RealmStorage) : Prop where
  storeCuckooId  : ∀ parent cuckoo,
    Checked.storeCuckooId s parent cuckoo = some (s.storeCuckooId parent cuckoo)
  storeCuckooIds : ∀ parent cuckoos,
    Checked.storeCuckooIds s parent cuckoos = some (s.storeCuckooIds parent cuckoos)
  upsertFlo      : ∀ fuel estimated stored flo,
    Checked.upsertFlo fuel s estimated stored flo = some (s.upsertFlo fuel estimated stored flo)

theorem Wf.checks (h : s.Wf) : s.Checks where
  storeCuckooId  := h.checked_storeCuckooId
  storeCuckooIds := h.checked_storeCuckooIds
  upsertFlo      := h.checked_upsertFlo

-- The entries, the index and the size agree, and no operation computes a negative size.
theorem Reachable.accounted (h : Reachable s) :
    s.size = HashMap.sum s.flos FloStorage.size ∧
    (∀ d id, (s.idsAt d).count id = if id ∈ s.flos ∧ d = KNode.getDepth s.root id then 1 else 0) ∧
    (∀ dhtConfig root now realm,
      Checked.new dhtConfig root now realm = some (.new dhtConfig root now realm)) ∧ s.Checks := by
  refine ⟨h.wf.size_eq, fun d id => ?_, checked_new, h.wf.checks⟩
  rw [(h.wf.nodup d).count]
  exact if_congr h.wf.indexed rfl rfl

end RealmStorage

namespace RealmStorage

attribute [local instance] Sha256.rolling

def narrowRealm : FloRealm :=
  Flo.sampleRealm 700 10

def narrowFlo (nonce : UInt8) : Flo :=
  .sample narrowRealm.flo.realm nonce 5

def narrowNew : RealmStorage :=
  .new {} (narrowFlo 1).floId 0 narrowRealm

-- A flo with a cuckoo.
def narrowParent : RealmStorage :=
  (narrowNew.taken 0 0 (narrowFlo 3)).storeCuckooIds (narrowFlo 3).floId [(narrowFlo 9).floId]

def narrow : RealmStorage :=
  narrowParent.taken 0 0 (narrowFlo 6)

-- A third flo has come, for which the second one had to go.
def exchanged : RealmStorage :=
  (narrow.taken 0 0 (narrowFlo 1)).removeFurthest

theorem reachable_narrow : Reachable narrow := by
  have h : Reachable narrowNew := .new ..
  have hp : Reachable narrowParent :=
    .step (h.taken (by decide +kernel) (by decide +kernel)) (.storeCuckooIds ..)
  exact hp.taken (by decide +kernel) (by decide +kernel)

theorem narrow_taken :
    ¬narrow.oversized (narrowFlo 1) ∧
    (narrow.taken 0 0 (narrowFlo 1)).realmConfig.maxSpace <
      (narrow.taken 0 0 (narrowFlo 1)).size ∧
    exchanged.size ≤ exchanged.realmConfig.maxSpace := by
  decide +kernel

theorem reachable_exchanged : Reachable exchanged := by
  obtain ⟨ho, h, hs⟩ := narrow_taken
  have hstop : Trims exchanged exchanged := .stop hs
  have ht : Trims (narrow.taken 0 0 (narrowFlo 1)) exchanged := Trims.step_iff h |>.mpr hstop
  exact reachable_narrow.step <| .upsertFlo <| (upserts_iff ho).mpr ⟨rfl, ht⟩

theorem accounted_exchanged :
    ((narrowFlo 6).floId ∈ narrow.flos ∧ (narrowFlo 6).floId ∉ exchanged.flos ∧
      (narrowFlo 1).floId ∈ exchanged.flos) ∧
    exchanged.size = HashMap.sum exchanged.flos FloStorage.size ∧
    (∀ d id, (exchanged.idsAt d).count id =
      if id ∈ exchanged.flos ∧ d = KNode.getDepth exchanged.root id then 1 else 0) ∧
    (∀ dhtConfig root now realm,
      Checked.new dhtConfig root now realm = some (.new dhtConfig root now realm)) ∧
    exchanged.Checks :=
  ⟨by decide +kernel, Reachable.accounted reachable_exchanged⟩

end RealmStorage
