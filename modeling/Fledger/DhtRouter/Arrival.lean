import Fledger.DhtRouter.Balance
import Fledger.DhtRouter.Blacklist
import Fledger.DhtRouter.Removal

namespace Kademlia

variable {t : Kademlia} {id : NodeID} {depth : Nat}

theorem exists_removeNode (t : Kademlia) (id : NodeID) :
    ∃ n t', ∀ fuel ≥ n, t.removeNode fuel id = some t' := by
  obtain ⟨n, t', h⟩ := removeNode_eq_some t id
  exact ⟨n, t', fun _ hf => removeNode_mono h hf⟩

theorem exists_addNode (h : t.Valid) (hk : 1 ≤ t.config.k) (id : NodeID) :
    ∃ n t', ∀ fuel ≥ n, t.addNode fuel id = some t' := by
  obtain ⟨n, t', ha⟩ := addNode_eq_some h hk id
  exact ⟨n, t', fun _ hf => addNode_mono ha hf⟩

theorem Valid.rooted (h : t.Valid) : t.Rooted :=
  fun _ hm => h.mem_nodes hm

-- The id of the node itself is looked up at the same depth as that of a node which only differs in
-- the last bit.
theorem Valid.routeClosest_root (h : t.Valid) (last : NodeID) :
    t.routeClosest t.root (some last) = [] ↔
      ∀ id ∈ t.activeNodes, KNode.getDepth t.root id ≠ 255 := by
  constructor
  case mp  =>
    intro hr id hm hd
    have hn := h.mem_getNodesDepth hm
    have hne : t.getNodesDepth (KNode.getDepth t.root t.root) ≠ [] := by
      rw [KNode.getDepth_self, ← hd]
      exact List.ne_nil_of_mem hn
    exact hne <| (routeClosest_of_ne_nil (some last) hne).symm.trans hr
  case mpr =>
    refine fun hd => List.eq_nil_iff_forall_not_mem.mpr fun id hm => ?_
    obtain ⟨depth, hn, hdepth⟩ := exists_depth_of_routeClosest hm
    refine hd id (mem_activeNodes_of_getNodesDepth hn) ?_
    have hg := h.rooted.of_getNodesDepth hn |>.right
    have hlt := KNode.getDepth_lt t.root id
    rw [KNode.getDepth_self] at hdepth
    rcases hdepth with hdepth | ⟨_, _, hdepth, _⟩ <;> omega

end Kademlia

namespace DHTRouter.Messages

variable {m m' : Messages} {env : Env} {id orig last : NodeID} {inFlight nodes : List NodeID}
  {fuel : Nat}

-- The node is removed by `blacklist_bad_nodes`.
def Bad (m : Messages) (env : Env) (id : NodeID) : Prop :=
  env.localBlacklists = true ∧ 10 < m.requestsInFlight.values.count id

-- What is left of a table without some of its active nodes.
structure Without (m : Messages) (bad : NodeID → Prop) (m' : Messages) : Prop where
  connected : m'.connected = m.connected
  keeps     : m.core.Keeps m'.core
  active    : ∀ id, id ∈ m'.core.activeNodes ↔ id ∈ m.core.activeNodes ∧ ¬bad id

theorem without_blacklist (h : m.core.Valid) (hb : m.blacklist env id = some m') :
    m.Without (· = id) m' := by
  simp only [blacklist, Option.bind_eq_bind, Option.pure_def, Option.bind_eq_some_iff,
    Option.some.injEq] at hb
  obtain ⟨core, hr, rfl⟩ := hb
  have hs := h.removed_removeNode hr
  refine ⟨rfl, Kademlia.keeps_removeNode h hr, fun other => ?_⟩
  by_cases ho : other = id
  case pos => exact iff_of_false (ho ▸ hs.notActive) fun ha => ha.right ho
  case neg => rw [hs.active other ho, and_iff_left ho]

theorem without_foldlM (h : m.core.Valid)
    (hb : nodes.foldlM (fun m node => if inFlight.count node > 10 then m.blacklist env node
      else some m) m = some m') :
    m.Without (fun id => id ∈ nodes ∧ 10 < inFlight.count id) m' := by
  induction nodes generalizing m
  case nil                =>
    cases hb
    exact ⟨rfl, .refl h, by simp⟩
  case cons node nodes hi =>
    obtain ⟨m₁, h₁, hb⟩ := Option.bind_eq_some_iff.mp hb
    have hw : m.Without (fun id => id = node ∧ 10 < inFlight.count id) m₁ := by
      dsimp only at h₁
      split at h₁
      case isTrue hc  =>
        have hw := without_blacklist h h₁
        refine ⟨hw.connected, hw.keeps, fun id => (hw.active id).trans ?_⟩
        exact and_congr_right fun _ => not_congr ⟨fun he => ⟨he, he ▸ hc⟩, And.left⟩
      case isFalse hc =>
        cases h₁
        refine ⟨rfl, .refl h, fun id => (and_iff_left ?_).symm⟩
        exact fun he => hc (he.left ▸ he.right)
    have hs := hi hw.keeps.valid hb
    refine ⟨hs.connected.trans hw.connected, hw.keeps.trans hs.keeps, fun id => ?_⟩
    rw [hs.active, hw.active, List.mem_cons]
    tauto

theorem without_blacklistBadNodes (h : m.core.Valid) (hb : m.blacklistBadNodes env = some m') :
    m.Without (m.Bad env) m' := by
  unfold blacklistBadNodes at hb
  split at hb
  case isTrue hl  =>
    cases hb
    refine ⟨rfl, .refl h, fun id => (and_iff_left fun hb => ?_).symm⟩
    simp [hb.left] at hl
  case isFalse hl =>
    have hw := without_foldlM h hb
    refine ⟨hw.connected, hw.keeps, fun id => (hw.active id).trans ?_⟩
    refine and_congr_right fun _ => not_congr ?_
    have hm : id ∈ (env.order m.requestsInFlight.values.dedup).1 ↔
        id ∈ m.requestsInFlight.values := by
      rw [(env.order _).2.mem_iff, List.mem_dedup]
    have hl : env.localBlacklists = true := by simpa using hl
    rw [hm, Bad, and_iff_right hl]
    exact and_iff_right_of_imp fun hc => List.count_pos_iff.mp (Nat.zero_lt_of_lt hc)

theorem exists_blacklist (m : Messages) (env : Env) (id : NodeID) :
    ∃ n m', ∀ fuel ≥ n, m.blacklist { env with fuel } id = some m' := by
  obtain ⟨n, core, h⟩ := m.core.exists_removeNode id
  refine ⟨n, ?_⟩
  simp +contextual only [blacklist, h, Option.bind_eq_bind, Option.bind_some, Option.pure_def]
  exact ⟨_, fun _ _ => rfl⟩

theorem exists_foldlM (m : Messages) (env : Env) (inFlight nodes : List NodeID) :
    ∃ n m', ∀ fuel ≥ n, nodes.foldlM (fun m node =>
      if inFlight.count node > 10 then m.blacklist { env with fuel } node else some m) m =
        some m' := by
  induction nodes generalizing m
  case nil                => exact ⟨0, m, fun _ _ => rfl⟩
  case cons node nodes hi =>
    by_cases hc : inFlight.count node > 10
    case pos =>
      obtain ⟨n₁, m₁, h₁⟩ := m.exists_blacklist env node
      obtain ⟨n₂, m₂, h₂⟩ := hi m₁
      refine ⟨max n₁ n₂, m₂, fun fuel hf => ?_⟩
      rw [List.foldlM_cons, if_pos hc, h₁ fuel (le_of_max_le_left hf)]
      exact h₂ fuel (le_of_max_le_right hf)
    case neg =>
      obtain ⟨n, m', h⟩ := hi m
      refine ⟨n, m', fun fuel hf => ?_⟩
      rw [List.foldlM_cons, if_neg hc]
      exact h fuel hf

theorem exists_blacklistBadNodes (m : Messages) (env : Env) :
    ∃ n m', ∀ fuel ≥ n, m.blacklistBadNodes { env with fuel } = some m' := by
  cases hl : env.localBlacklists
  case false => exact ⟨0, m, fun _ _ => by simp [blacklistBadNodes]⟩
  case true  =>
    obtain ⟨n, m', h⟩ := m.exists_foldlM env m.requestsInFlight.values
      (env.order m.requestsInFlight.values.dedup).1
    exact ⟨n, m', fun fuel hf => by simpa [blacklistBadNodes, hl] using h fuel hf⟩

theorem exists_randomlyWhitelist (h : m.core.Valid) (hk : 1 ≤ m.core.config.k) (env : Env) :
    ∃ n m', ∀ fuel ≥ n, m.randomlyWhitelist { env with fuel } = some m' := by
  cases hl : env.localBlacklists
  case false => exact ⟨0, m, fun _ _ => by simp [randomlyWhitelist]⟩
  case true  =>
    cases hb : !m.blacklistedNodes.isEmpty && env.genBool
    case false => exact ⟨0, m, fun _ _ => by simp [randomlyWhitelist, hb]⟩
    case true  =>
      have hc : ∀ env' : Env, env'.genRange = env.genRange →
          env'.choose m.blacklistedNodes = env.choose m.blacklistedNodes := fun env' he => by
        cases m.blacklistedNodes <;> simp [Env.choose, he]
      cases hn : env.choose m.blacklistedNodes
      case none      => exact ⟨0, m, fun _ _ => by simp [randomlyWhitelist, hb, hc, hn]⟩
      case some node =>
        obtain ⟨n, core, ha⟩ := Kademlia.exists_addNode h hk node
        refine ⟨n, { m with core, blacklistedNodes := m.blacklistedNodes.erase node }, ?_⟩
        intro fuel hf
        simp [randomlyWhitelist, hb, hc, hn, ha fuel hf]

theorem root_randomlyWhitelist (h : m.core.Valid) (hw : m.randomlyWhitelist env = some m') :
    m'.core.root = m.core.root := by
  obtain rfl | ⟨node, core, hc, rfl⟩ := randomlyWhitelist_cases hw
  case inl => rfl
  case inr => exact (Kademlia.keeps_addNode h hc).root

theorem Without.closestOrConnected_eq_nil {bad : NodeID → Prop} (h : m.Without bad m')
    (hc : m.core.root ∉ m.connected) :
    m'.closestOrConnected m.core.root (some last) = [] ↔
      ∀ id ∈ m.core.activeNodes, KNode.getDepth m.core.root id = 255 → bad id := by
  have hn : m'.connected.contains m.core.root = false := by simpa [h.connected] using hc
  rw [closestOrConnected, hn, if_neg Bool.false_ne_true, ← h.keeps.root,
    h.keeps.valid.routeClosest_root]
  refine forall_congr' fun id => ?_
  rw [h.active, h.keeps.root]
  tauto

section

variable [Yaml ModuleMessage] [Yaml MessageClosest] {msg : NetworkWrapper}

-- A message for the node itself arrives, unless there is an active node which only differs in the
-- last bit, and which is not blacklisted.
theorem messageClosest_root_iff (h : m.core.Valid) (hk : 1 ≤ m.core.config.k)
    (hc : m.core.root ∉ m.connected) :
    (∃ fuel m', m.messageClosest { env with fuel } orig last m.core.root msg =
        some (m', [.dhtRouter (.messageDest orig last msg)])) ↔
      ∀ id ∈ m.core.activeNodes, KNode.getDepth m.core.root id = 255 → m.Bad env id := by
  constructor
  case mp  =>
    rintro ⟨fuel, m', hm⟩
    obtain ⟨m₁, m₂, h₁, -, ⟨hn, -, -⟩ | ⟨_, _, -, -, -, ho⟩⟩ := messageClosest_cases hm
    case inl =>
      have hw := without_blacklistBadNodes h h₁
      exact hw.closestOrConnected_eq_nil hc |>.mp (List.head?_eq_none_iff.mp hn)
    case inr => cases ho
  case mpr =>
    intro hb
    obtain ⟨n₁, m₁, h₁⟩ := m.exists_blacklistBadNodes env
    have hw := without_blacklistBadNodes h (h₁ n₁ le_rfl)
    have hk : 1 ≤ m₁.core.config.k := hw.keeps.config ▸ hk
    obtain ⟨n₂, m₂, h₂⟩ := exists_randomlyWhitelist hw.keeps.valid hk env
    have hr : m₂.core.root = m.core.root :=
      (root_randomlyWhitelist hw.keeps.valid (h₂ n₂ le_rfl)).trans hw.keeps.root
    have hn : m₁.closestOrConnected m.core.root (some last) = [] :=
      hw.closestOrConnected_eq_nil hc |>.mpr hb
    refine ⟨max n₁ n₂, m₂, ?_⟩
    simp [messageClosest, h₁ _ (Nat.le_max_left n₁ n₂), h₂ _ (Nat.le_max_right n₁ n₂), hn, hr]

end

section Concrete

attribute [local instance] ModuleMessage.named noClosest

def twin : NodeID :=
  .ofPrefix (List.replicate 31 0 ++ [1])

-- A node whose only active neighbour differs in the last bit.
def twinned : Messages :=
  let core := ((Kademlia.new .zero {}).addNode 1 twin).getD (.new .zero {})
  { Messages.new .zero {} with core := (core.nodeActive twin).1 }

theorem twinned_valid : twinned.core.Valid := by
  have ha : ((Kademlia.new .zero {}).addNode 1 twin).isSome = true := by decide +kernel
  obtain ⟨core, ha⟩ := Option.isSome_iff_exists.mp ha
  rw [twinned, ha]
  exact Kademlia.keeps_nodeActive (Kademlia.keeps_addNode (Kademlia.valid_new _ _) ha).valid twin
    |>.valid

theorem not_arrived_twinned : twinned.core.Valid ∧ twinned.core.root = .zero ∧
    twinned.core.config.k = 2 ∧ twinned.connected = [] ∧
    ∀ fuel orig msg, twinned.messageClosest { quietEnv with fuel } orig .zero .zero msg = some
      (twinned, [.network (.networkWrapperToNetwork twin ⟨dhtRouterName, "Closest"⟩),
        .dhtRouter (.messageRouting orig .zero twin .zero msg)]) := by
  have hd : (twinned.closestOrConnected .zero (some .zero)).head? = some twin ∧
      twinned.core.root = .zero ∧ twinned.core.config.k = 2 := by decide +kernel
  obtain ⟨hn, hr, hk⟩ := hd
  refine ⟨twinned_valid, hr, hk, rfl, fun fuel orig msg => ?_⟩
  have hm : getReadfloId msg = none := by simp [getReadfloId, NetworkWrapper.unwrapYaml]
  simp [messageClosest, blacklistBadNodes, randomlyWhitelist, quietEnv, hn, hm,
    ModuleMessage.wrapperNetwork, NetworkWrapper.wrapYaml]
  rfl

theorem arrived_knowing : ∃ fuel m',
    knowing.messageClosest { quietEnv with fuel } .zero .zero knowing.core.root ⟨"", ""⟩ =
      some (m', [.dhtRouter (.messageDest .zero .zero ⟨"", ""⟩)]) := by
  have hd : (1 ≤ knowing.core.config.k ∧ knowing.core.root ∉ knowing.connected) ∧
      ∀ id ∈ knowing.core.activeNodes, KNode.getDepth knowing.core.root id ≠ 255 := by
    decide +kernel
  obtain ⟨⟨hk, hc⟩, hn⟩ := hd
  exact messageClosest_root_iff knowing_reachable.keeps.valid hk hc |>.mpr
    fun id hm hd => absurd hd (hn id hm)

end Concrete

end DHTRouter.Messages
