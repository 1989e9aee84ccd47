import Fledger.DhtStorage.Realms
import Fledger.DhtStorage.Report
import Fledger.Flo.Concrete

namespace Messages

variable [Sha256] [RealmReader] [Yaml (HashMap RealmID RealmStorage)] [Yaml MessageClosest]
  {m m' : Messages} {env : Env} {flo : Flo} {s : RealmStorage} {out : List InternOut}

-- The nodes which are the closest to the flo are told to store it.
def Announces (out : List InternOut) (flo : Flo) : Prop :=
  ∃ w, .routing (.messageClosest flo.floId w) ∈ out ∧
    w.unwrapYaml MessageClosest dhtStorageName = some (.storeFlo flo)

-- The messages about a flo can be written.
structure Writable (flo : Flo) : Prop where
  storeFlo      : Yaml.Lossless (MessageClosest.storeFlo flo)
  storeCuckooId : Yaml.Lossless (MessageClosest.storeCuckooId flo.globalId)

omit [RealmReader] [Yaml (HashMap RealmID RealmStorage)] in
theorem mem_announcements {isNew : Bool} {o : InternOut}
    (h : announcements flo isNew = some out) (ho : o ∈ out) :
    (isNew = true ∧ (MessageClosest.storeFlo flo).toInternOut flo.floId = some o) ∨
    ∃ parent, (MessageClosest.storeCuckooId flo.globalId).toInternOut parent = some o := by
  have ⟨stored, hs, h⟩ := Option.bind_eq_some_iff.mp h
  have ⟨cuckoo, hc, h⟩ := Option.bind_eq_some_iff.mp h
  cases h
  rcases List.mem_append.mp ho with ho | ho
  case inl =>
    split at hs
    case isFalse => cases hs; simp at ho
    case isTrue hn =>
      have ⟨_, hw, hs⟩ := Option.map_eq_some_iff.mp hs
      cases hs
      exact .inl ⟨hn, hw.trans (by rw [List.mem_singleton.mp ho])⟩
  case inr =>
    split at hc
    case h_2 => cases hc; simp at ho
    case h_1 parent _ =>
      have ⟨_, hw, hc⟩ := Option.map_eq_some_iff.mp hc
      cases hc
      exact .inr ⟨parent, hw.trans (by rw [List.mem_singleton.mp ho])⟩

omit [RealmReader] [Yaml (HashMap RealmID RealmStorage)] in
-- Only what is reported as new is announced.
theorem isNew_of_announces {isNew : Bool} (hw : Writable flo)
    (h : announcements flo isNew = some out) (ha : Announces out flo) : isNew = true := by
  have ⟨w, hm, hu⟩ := ha
  rcases mem_announcements h hm with ⟨hn, _⟩ | ⟨_, ho⟩
  case inl => exact hn
  case inr =>
    have ⟨w', hw', ho⟩ := Option.map_eq_some_iff.mp ho
    cases ho
    rw [NetworkWrapper.unwrapYaml_of_wrapYaml hw.storeCuckooId hw'] at hu
    simp at hu

-- What `store_flo` does with a flo of a known realm.
theorem upserts_of_storeFlo (hl : m.realms.lookup flo.realm = some s)
    (h : m.storeFlo env flo = some (m', out)) : ∃ s' isNew,
    s.Upserts (env.now 0) (env.now 1) flo s' isNew ∧ m'.realms.lookup flo.realm = some s' ∧
    announcements flo isNew = some out ∧ (m'.ds ≠ m.ds → isNew = true) := by
  have ⟨m₁, isNew, ht, hm, ha⟩ := storeFlo_eq_some.mp h
  cases takes_of_takeFlo ht
  case created hn _ _ | ignored hn _ => simp [hl] at hn
  case known s' hl' hu =>
    cases hl.symm.trans hl'
    refine ⟨s', isNew, hu, ?_, ha, ?_⟩
    case refine_1 =>
      have hr : m'.realms = (m.insertRealm flo.realm s').realms := by
        rw [hm]
        split <;> [exact store_realms _; rfl]
      rw [hr]
      exact AList.lookup_insert _
    case refine_2 =>
      intro hds
      by_contra hn
      rw [if_neg hn] at hm
      exact hds (by rw [hm]; rfl)

-- What is reported about a flo is right, it does not have to be stored again, and only if it was
-- really stored it is persisted and announced.
structure Reports (m : Messages) (env : Env) (flo : Flo) (s : RealmStorage) (m' : Messages)
    (out : List InternOut) (s' : RealmStorage) (isNew : Bool) : Prop where
  upserts   : s.Upserts (env.now 0) (env.now 1) flo s' isNew
  lookup    : m'.realms.lookup flo.realm = some s'
  isNew     : isNew = true ↔ s'.Stored flo ∧ ¬s.Stored flo
  settled   : s'.Settled flo
  persisted : m'.ds ≠ m.ds → s'.Stored flo ∧ ¬s.Stored flo
  announced : Announces out flo → s'.Stored flo ∧ ¬s.Stored flo

-- All this holds exactly if the flo is kept.
theorem reports_iff_honours (h : s.Reachable) (hw : Writable flo)
    (hl : m.realms.lookup flo.realm = some s) (hs : m.storeFlo env flo = some (m', out)) :
    (∃ s' isNew, Reports m env flo s m' out s' isNew) ↔
      s.Honours (env.now 0) (env.now 1) flo := by
  constructor
  case mp =>
    intro ⟨s', isNew, hr⟩
    exact RealmStorage.report_iff h.wf hr.upserts |>.mp ⟨hr.isNew, hr.settled⟩
  case mpr =>
    intro hh
    have ⟨s', isNew, hu, hl', ha, hds⟩ := upserts_of_storeFlo hl hs
    have ⟨hnew, hsettled⟩ := RealmStorage.report_iff h.wf hu |>.mpr hh
    exact ⟨s', isNew, hu, hl', hnew, hsettled, fun hd => hnew.mp (hds hd),
      fun hann => hnew.mp (isNew_of_announces hw ha hann)⟩

end Messages

namespace Messages

attribute [local instance] Sha256.rolling

-- A flo which is sent to a node with a realm of 1000 bytes.
def hosting (length : Nat) : RealmStorage :=
  .new {} .zero 0 (Flo.sampleRealm 1000 length)

def host (length : Nat) : Messages where
  realms := AList.singleton (hosting length).realmId (hosting length)
  nodes  := []
  config := {}
  ourId  := .zero
  ds     := ∅

def hosted (length : Nat) : Flo :=
  .sample (hosting length).realmId 1 5

def hostedEnv : Env where
  fuel          := 1
  now _         := 0
  rnd           := .zero
  evilNoForward := false

-- The messages about the flo, by their name.
abbrev hostedYaml (length : Nat) : Yaml MessageClosest where
  toString
    | .storeFlo _      => some "StoreFlo"
    | .storeCuckooId _ => some "StoreCuckooID"
    | _                => none
  fromStr s :=
    if s = "StoreFlo" then some (.storeFlo (hosted length))
    else if s = "StoreCuckooID" then some (.storeCuckooId (hosted length).globalId)
    else none

abbrev noYaml : Yaml (HashMap RealmID RealmStorage) where
  toString _ := some "realms"
  fromStr _  := none

abbrev noRealms : RealmReader where
  fromRmpBytes _ := none

attribute [local instance] noYaml noRealms

theorem host_lookup (length : Nat) :
    (host length).realms.lookup (hosted length).realm = some (hosting length) :=
  AList.lookup_insert ∅

theorem hosted_writable (length : Nat) : @Writable _ (hostedYaml length) (hosted length) :=
  let _ := hostedYaml length
  ⟨⟨"StoreFlo", rfl, rfl⟩, ⟨"StoreCuckooID", rfl, rfl⟩⟩

theorem reports_iff_honours_hosted : let _ := hostedYaml 10
    ∃ m' out, (host 10).storeFlo hostedEnv (hosted 10) = some (m', out) ∧
      ((∃ s' isNew, Reports (host 10) hostedEnv (hosted 10) (hosting 10) m' out s' isNew) ↔
        (hosting 10).Honours 0 0 (hosted 10)) := by
  let _ := hostedYaml 10
  have hs : ((host 10).storeFlo hostedEnv (hosted 10)).isSome = true := by decide +kernel
  have ⟨⟨m', out⟩, hs⟩ := Option.isSome_iff_exists.mp hs
  exact ⟨m', out, hs, reports_iff_honours (.new ..) (hosted_writable 10) (host_lookup 10) hs⟩

-- There is no space left for the flo, but it is announced.
theorem hosted_announced_not_stored : let _ := hostedYaml 390
    (hosting 390).Reachable ∧ ∃ m' out, (host 390).storeFlo hostedEnv (hosted 390) = some (m', out) ∧
      Announces out (hosted 390) ∧ ∃ s', m'.realms.lookup (hosted 390).realm = some s' ∧
        (hosting 390).Upserts 0 0 (hosted 390) s' true ∧ ¬s'.Stored (hosted 390) := by
  let _ := hostedYaml 390
  have hs : ((host 390).storeFlo hostedEnv (hosted 390)).isSome = true := by decide +kernel
  have ⟨⟨m', out⟩, hs⟩ := Option.isSome_iff_exists.mp hs
  have ⟨s', isNew, hu, hl, ha, _⟩ := upserts_of_storeFlo (host_lookup 390) hs
  have ho : ¬(hosting 390).oversized (hosted 390) := by decide +kernel
  have hacc : ((hosting 390).adoptCuckoo (hosted 390)).accepts (hostedEnv.now 0) (hosted 390) =
      false := by decide +kernel
  have ⟨hn, ht⟩ := (RealmStorage.upserts_iff ho).mp hu
  have hm : (hosted 390).floId ∉ (hosting 390).flos := by decide +kernel
  cases hn.trans (by simp [hm] : _ = true)
  refine ⟨.new .., m', out, hs, ?_, s', hl, hu, ?_⟩
  case refine_1 =>
    have ha : some [_] = some out := ha
    exact ⟨_, Option.some.inj ha ▸ List.mem_singleton_self _, rfl⟩
  case refine_2 =>
    intro ⟨_, hl, _⟩
    rw [RealmStorage.taken_of_stale hacc] at ht
    have hw : ((hosting 390).adoptCuckoo (hosted 390)).Wf :=
      RealmStorage.Reachable.new .. |>.wf.adoptCuckoo _
    exact hm <| RealmStorage.mem_adoptCuckoo.mp <| HashMap.mem_iff_lookup.mpr
      ⟨_, RealmStorage.Trims.lookup_of_some ht hw hl⟩

end Messages
