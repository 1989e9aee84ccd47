import Fledger.DhtStorage.Bound

namespace RealmStorage

variable {s a b : RealmStorage} {id : FloID} {fs fs' : FloStorage}

-- The entry is at least as new, and has at least as many cuckoos.
def Reaches (s : RealmStorage) (remote : FloMeta) : Prop :=
  ∃ fs, s.flos.lookup remote.id = some fs ∧ remote.version ≤ fs.version ∧
    remote.cuckoos ≤ .ofNat fs.cuckoos.length

theorem syncAvailable_eq_none {metas : List FloMeta} :
    s.syncAvailable metas = none ↔ ∀ remote ∈ metas, s.Reaches remote := by
  simp only [syncAvailable, gt_iff_lt, List.length_pos_iff, ite_eq_right_iff, reduceCtorEq,
    imp_false, not_not, List.filterMap_eq_nil_iff]
  refine forall₂_congr fun remote _ => ?_
  simp [Reaches, FloStorage.version]

variable [Sha256]

def metaOf (id : FloID) (fs : FloStorage) : FloMeta where
  id      := id
  version := fs.version
  cuckoos := .ofNat fs.cuckoos.length

theorem Wf.mem_getFloMetas (h : s.Wf) {floMeta : FloMeta} :
    floMeta ∈ s.getFloMetas ↔ ∃ id fs, s.flos.lookup id = some fs ∧ metaOf id fs = floMeta := by
  simp only [getFloMetas, List.mem_map, HashMap.mem_values]
  constructor
  case mp =>
    rintro ⟨fs, ⟨id, hl⟩, rfl⟩
    exact ⟨id, fs, hl, by rw [metaOf, h.keyed hl]⟩
  case mpr =>
    rintro ⟨id, fs, hl, rfl⟩
    exact ⟨fs, ⟨id, hl⟩, by rw [metaOf, h.keyed hl]⟩

theorem Wf.synced_iff (h : b.Wf) : a.syncAvailable b.getFloMetas = none ↔
    ∀ id fs, b.flos.lookup id = some fs → a.Reaches (metaOf id fs) := by
  rw [syncAvailable_eq_none]
  constructor
  case mp  => exact fun hr id fs hl => hr _ <| h.mem_getFloMetas.mpr ⟨id, fs, hl, rfl⟩
  case mpr =>
    intro hr floMeta hm
    obtain ⟨id, fs, hl, rfl⟩ := h.mem_getFloMetas.mp hm
    exact hr id fs hl

-- No side asks for anything anymore.
def Synced (a b : RealmStorage) : Prop :=
  a.syncAvailable b.getFloMetas = none ∧ b.syncAvailable a.getFloMetas = none

theorem Synced.symm (h : a.Synced b) : b.Synced a :=
  And.symm h

theorem Synced.mem (h : a.Synced b) (ha : a.Wf) (hm : id ∈ a.flos) : id ∈ b.flos := by
  obtain ⟨fs, hl⟩ := HashMap.mem_iff_lookup.mp hm
  obtain ⟨fs', hl', _⟩ := ha.synced_iff.mp h.right id fs hl
  exact HashMap.mem_iff_lookup.mpr ⟨fs', hl'⟩

theorem Synced.le (h : a.Synced b) (ha : a.Wf) (hl : a.flos.lookup id = some fs)
    (hl' : b.flos.lookup id = some fs') : fs.version ≤ fs'.version ∧
      UInt32.ofNat fs.cuckoos.length ≤ UInt32.ofNat fs'.cuckoos.length := by
  obtain ⟨fs₀, hl₀, hv, hc⟩ := ha.synced_iff.mp h.right id fs hl
  rw [show (metaOf id fs).id = id from rfl, hl', Option.some.injEq] at hl₀
  exact hl₀ ▸ ⟨hv, hc⟩

-- A cuckoo is listed once.
theorem Reachable.nodup_cuckoos (h : Reachable s) (hl : s.flos.lookup id = some fs) :
    fs.cuckoos.Nodup := by
  refine h.each (P := fun fs => fs.cuckoos.Nodup) (fun _ _ => List.nodup_nil) ?_ id fs hl
  intro fs cuckoo hn
  unfold FloStorage.withCuckoo
  split
  case isFalse   => exact hn
  case isTrue hc => simpa [List.nodup_append] using ⟨hn, fun c hm he => hc (he ▸ hm)⟩

-- Both sides hold the same flos in the same version, and know as many different cuckoos of each.
theorem Reachable.agree_of_synced (ha : Reachable a) (hb : Reachable b) (h : a.Synced b) :
    (∀ id, id ∈ a.flos ↔ id ∈ b.flos) ∧
    ∀ id fs fs', a.flos.lookup id = some fs → b.flos.lookup id = some fs' →
      fs.version = fs'.version ∧ fs.cuckoos.Nodup ∧ fs'.cuckoos.Nodup ∧
      fs.cuckoos.length % 2 ^ 32 = fs'.cuckoos.length % 2 ^ 32 ∧
      (fs.cuckoos.length < 2 ^ 32 → fs'.cuckoos.length < 2 ^ 32 → fs.cuckoos ⊆ fs'.cuckoos →
        ∀ c, c ∈ fs.cuckoos ↔ c ∈ fs'.cuckoos) := by
  refine ⟨fun id => ⟨h.mem ha.wf, h.symm.mem hb.wf⟩, fun id fs fs' hl hl' => ?_⟩
  obtain ⟨hv, hc⟩ := h.le ha.wf hl hl'
  obtain ⟨hv', hc'⟩ := h.symm.le hb.wf hl' hl
  have hn := ha.nodup_cuckoos hl
  have hlen : fs.cuckoos.length % 2 ^ 32 = fs'.cuckoos.length % 2 ^ 32 := by
    simpa using congrArg UInt32.toNat <| UInt32.le_antisymm hc hc'
  refine ⟨UInt32.le_antisymm hv hv', hn, hb.nodup_cuckoos hl', hlen, fun hb hb' hs c => ?_⟩
  rw [Nat.mod_eq_of_lt hb, Nat.mod_eq_of_lt hb'] at hlen
  exact (List.subperm_of_subset hn hs).perm_of_length_le hlen.ge |>.mem_iff

end RealmStorage

namespace RealmStorage

attribute [local instance] Sha256.rolling

-- Two updates of the same flo, and a cuckoo for each of them.
def article (content : UInt8) : Flo :=
  { Flo.sample roomy.realmId 1 5 with dataVersion := 1, data := [content] }

def reply (nonce : UInt8) : FloID :=
  (Flo.sample roomy.realmId nonce 5).floId

def replica (content nonce : UInt8) : RealmStorage :=
  (roomy.taken 0 0 (article content)).storeCuckooId (article content).floId (reply nonce)

theorem reachable_replica {content nonce : UInt8} (ho : ¬roomy.oversized (article content))
    (hb : (roomy.taken 0 0 (article content)).size ≤ roomy.realmConfig.maxSpace) :
    Reachable (replica content nonce) :=
  (Reachable.taken (.new ..) ho hb).step <| .storeCuckooId ..

theorem article_fits : ∀ content ∈ [2, 3], ¬roomy.oversized (article content) ∧
    (roomy.taken 0 0 (article content)).size ≤ roomy.realmConfig.maxSpace := by
  decide +kernel

theorem reachable_first : Reachable (replica 2 3) :=
  have hf := article_fits 2 (by decide)
  reachable_replica hf.left hf.right

theorem reachable_second : Reachable (replica 3 4) :=
  have hf := article_fits 3 (by decide)
  reachable_replica hf.left hf.right

theorem synced_replicas : (replica 2 3).Synced (replica 3 4) :=
  ⟨by decide +kernel, by decide +kernel⟩

theorem agree_of_synced_replicas :
    (∀ id, id ∈ (replica 2 3).flos ↔ id ∈ (replica 3 4).flos) ∧
    ∀ id fs fs', (replica 2 3).flos.lookup id = some fs → (replica 3 4).flos.lookup id = some fs' →
      fs.version = fs'.version ∧ fs.cuckoos.Nodup ∧ fs'.cuckoos.Nodup ∧
      fs.cuckoos.length % 2 ^ 32 = fs'.cuckoos.length % 2 ^ 32 ∧
      (fs.cuckoos.length < 2 ^ 32 → fs'.cuckoos.length < 2 ^ 32 → fs.cuckoos ⊆ fs'.cuckoos →
        ∀ c, c ∈ fs.cuckoos ↔ c ∈ fs'.cuckoos) :=
  reachable_first.agree_of_synced reachable_second synced_replicas

-- They do not agree on the content, and not on the cuckoos.
theorem synced_replicas_differ : Reachable (replica 2 3) ∧ Reachable (replica 3 4) ∧
    (replica 2 3).realmId = (replica 3 4).realmId ∧ (replica 2 3).Synced (replica 3 4) ∧
    ∃ id,
      ((replica 2 3).getFloCuckoo id).map (fun fc => (fc.1.data, fc.2)) = some ([2], [reply 3]) ∧
      ((replica 3 4).getFloCuckoo id).map (fun fc => (fc.1.data, fc.2)) = some ([3], [reply 4]) ∧
      reply 3 ≠ reply 4 := by
  refine ⟨reachable_first, reachable_second, by decide +kernel, synced_replicas,
    (article 2).floId, ?_⟩
  decide +kernel

end RealmStorage
