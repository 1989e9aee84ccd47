import Fledger.Dht.Nodes
import Fledger.DhtStorage.Genuine
import Fledger.DhtStorage.Sync

namespace DHTNode

variable [Sha256] [RealmReader] [Yaml (HashMap RealmID RealmStorage)] [Yaml MessageClosest]
  [Yaml MessageNeighbour] [Yaml MessageDest] [Yaml DHTRouter.ModuleMessage]

-- The state of the whole network.
abbrev Net :=
  Cluster.State NodeID DHTNode Input Output

-- An application has given such a flo to the module of some node.
def Net.HandedIn (net : Net) (c : Flo.Contents) : Prop :=
  ∃ id env flo, (id, Input.storage env (.storage (.storeFlo flo))) ∈ net.inputs ∧ flo.contents = c

-- A node which starts with an empty data storage.
def Fresh (id : NodeID) (node : DHTNode) : Prop :=
  ∃ cfg ds config, (Yaml.fromStr ((ds.lookup dhtStorageName).getD "") :
      Option (HashMap RealmID RealmStorage)) = none ∧
    node = { router := .new id cfg, storage := .new ds config id }

variable {F : Flo.Contents → Prop} {id : NodeID} {node node' : DHTNode} {input : Input}
  {out : List Output}

def Input.Genuine (F : Flo.Contents → Prop) : Input → Prop
  | .router _ input  => (genuineCargo F).In input
  | .storage _ input => input.Genuine F
  | .restart ..      => True

def Output.Genuine (F : Flo.Contents → Prop) : Output → Prop
  | .router out  => (genuineCargo F).Out out
  | .storage out => out.Genuine F

omit [RealmReader] [Yaml MessageClosest] [Yaml MessageNeighbour] [Yaml MessageDest]
  [Yaml DHTRouter.ModuleMessage] in
theorem genuine_new (hy : RealmStorage.Rereads) {ds : HashMap String String}
    (h : ∀ realms, (Yaml.fromStr ((ds.lookup dhtStorageName).getD "") :
      Option (HashMap RealmID RealmStorage)) = some realms → Messages.GenuineRealms F realms)
    (config : DHTConfig) (id : NodeID) : (Messages.new ds config id).Genuine F := by
  refine Messages.Genuine.store hy ⟨?_, h⟩
  dsimp only
  cases hs : (Yaml.fromStr ((ds.lookup dhtStorageName).getD "") :
    Option (HashMap RealmID RealmStorage))
  case none        => exact fun _ _ hl => by cases hl
  case some realms => exact h realms hs

omit [RealmReader] [Yaml MessageClosest] [Yaml MessageNeighbour] [Yaml MessageDest]
  [Yaml DHTRouter.ModuleMessage] in
theorem Fresh.genuine (hy : RealmStorage.Rereads) (h : Fresh id node) :
    node.storage.Genuine F := by
  obtain ⟨cfg, ds, config, hs, rfl⟩ := h
  exact genuine_new hy (fun _ hr => by rw [hs] at hr; cases hr) config id

theorem genuine_handle (hy : YamlFaithful) (hr : Yaml.Faithful DHTRouter.ModuleMessage)
    (h : node.storage.Genuine F) (hi : input.Genuine F)
    (hh : node.handle id input = some (node', out)) :
    node'.storage.Genuine F ∧ ∀ o ∈ out, o.Genuine F := by
  cases input <;> simp only [handle] at hh
  case router   =>
    obtain ⟨⟨_, o⟩, hm, hh⟩ := Option.bind_eq_some_iff.mp hh
    cases hh
    exact ⟨h, List.forall_mem_map.mpr <| DHTRouter.Cargo.out_of_message hr hi hm⟩
  case storage  =>
    obtain ⟨⟨_, o⟩, hm, hh⟩ := Option.bind_eq_some_iff.mp hh
    cases hh
    obtain ⟨hs, ho⟩ := h.message hy hi hm
    exact ⟨hs, List.forall_mem_map.mpr ho⟩
  case restart config =>
    cases hh
    exact ⟨genuine_new hy.realms h.saved config id, fun _ hm => absurd hm List.not_mem_nil⟩

theorem keeps_genuine (hy : YamlFaithful) (hr : Yaml.Faithful DHTRouter.ModuleMessage) :
    network.Keeps (fun _ node => node.storage.Genuine F) (fun _ input => input.Genuine F)
      (fun _ out => out.Genuine F) where
  state h hi hh  := (genuine_handle hy hr h hi hh).left
  output h hi hh := (genuine_handle hy hr h hi hh).right
  carried h hc   := by
    cases hc
    case toRouter  => exact h
    case toStorage => exact h
    case toNode    => exact h

omit [RealmReader] [Yaml (HashMap RealmID RealmStorage)] in
-- Messages of other modules are not mistaken for those of the storage.
theorem genuine_of_outside (h : Outside input)
    (hf : ∀ env flo, input = .storage env (.storage (.storeFlo flo)) → F flo.contents) :
    input.Genuine F := by
  cases input
  case restart => trivial
  case storage env input =>
    cases input
    case routing       => exact absurd h id
    case propagateFlos => trivial
    case storage msg   =>
      cases msg
      case storeFlo flo => exact hf env flo rfl
      all_goals trivial
  case router env input =>
    have hn {α : Type} [Yaml α] {w : NetworkWrapper} {name : String} (h : w.moduleName ≠ name) :
        w.unwrapYaml α name = none := if_neg h
    cases input
    case tick          => trivial
    case network msg   =>
      cases msg
      case networkWrapperFromNetwork =>
        intro mm hu
        rw [hn h] at hu
        cases hu
      all_goals trivial
    case dhtRouter msg =>
      have hw : (∀ key, (genuineCargo F).closest key msg.msg) ∧
          (genuineCargo F).neighbour msg.msg := by
        simp [genuineCargo, hn h]
      cases msg
      case messageClosest key _ => exact hw.left key
      case messageDirect        => exact (genuineCargo F).arrives (hw.left .zero)
      case messageNeighbour     => exact hw.right
      case messageBroadcast     => exact hw.right

-- Whatever gets lost, comes twice or in another order, and whoever restarts or does not forward
-- anything: what is stored at a node has been handed in, as have its cuckoos, and applications are not
-- told about anything else.
theorem provenance (hy : YamlFaithful) (hr : Yaml.Faithful DHTRouter.ModuleMessage)
    {nodes : NodeID → DHTNode} (hn : ∀ id, Fresh id (nodes id)) {net : Net}
    (h : network.Runs (Cluster.start nodes) net) :
    (∀ id rid s, (net.parties id).storage.realms.lookup rid = some s →
      ∀ fid fs, s.flos.lookup fid = some fs → fs.flo.realm = rid ∧ fs.flo.floId = fid ∧
        FloCuckoo.Genuine net.HandedIn (fs.flo, fs.cuckoos)) ∧
    ∀ id out, (id, .storage (.storage out)) ∈ net.outputs → out.Genuine net.HandedIn := by
  have hinputs : ∀ e ∈ net.inputs, e.2.Genuine net.HandedIn := fun e he =>
    genuine_of_outside (h.outside e he) fun env flo hi => ⟨e.1, env, flo, hi ▸ he, rfl⟩
  have hfine := (keeps_genuine hy hr).runs
    (Cluster.fine_start fun id => (hn id).genuine hy.realms) h hinputs
  constructor
  case left  =>
    intro id rid s hl fid fs hl'
    have hs := (hfine.parties id).realms rid s hl fid fs hl'
    exact ⟨hs.realm, hs.keyed, hs.entry⟩
  case right => exact fun id out hm => hfine.outputs _ hm

end DHTNode

-- An application gives a flo to a node, which sends it to the node which is closest to its id.
namespace DHTNode.Founded

open Sync (sharedFlo sharedId sharedRealm sharedEnv sharedFlo_realm wrapper)
open DHTRouter (quietEnv)
open Cluster.State (parties_after parties_after_of_ne parties_fed parties_fed_of_ne
  mem_outputs_after mem_outputs_fed)

attribute [local instance] Sha256.rolling Sync.sharedReader

def near : NodeID :=
  .ofPrefix [0x2a]

-- The realms of a node which has got the flo.
def founded (id : NodeID) : HashMap RealmID RealmStorage :=
  AList.insert sharedId (.new {} id 0 { flo := sharedFlo, object := sharedRealm }) ∅

noncomputable abbrev realmsYaml : Yaml (HashMap RealmID RealmStorage) :=
  .table [(∅, "{}"), (founded .zero, "first"), (founded near, "second")]

noncomputable abbrev closestYaml : Yaml MessageClosest :=
  .table [(.storeFlo sharedFlo, "StoreFlo")]

noncomputable abbrev neighbourYaml : Yaml MessageNeighbour :=
  .table []

noncomputable abbrev destYaml : Yaml MessageDest :=
  .table []

noncomputable abbrev routerYaml : Yaml DHTRouter.ModuleMessage :=
  .table [(.closest .zero sharedId (wrapper "StoreFlo"), "Closest")]

attribute [local instance] realmsYaml closestYaml neighbourYaml destYaml routerYaml

theorem yamlFaithful : YamlFaithful where
  realms      := (Yaml.table_faithful <| by decide).rereads _
  closest     := (Yaml.table_faithful <| by decide).rereads _
  dest        := (Yaml.table_faithful <| by decide).rereads _
  neighbour   := (Yaml.table_faithful <| by decide).rereads _
  apart _ _ _ := rfl

noncomputable def fresh (id : NodeID) : DHTNode where
  router  := .new id {}
  storage := .new ∅ {} id

theorem fromStr_empty : (Yaml.fromStr "" : Option (HashMap RealmID RealmStorage)) = none := by
  simp [Yaml.fromStr]

theorem toString_empty : Yaml.toString (∅ : HashMap RealmID RealmStorage) = some "{}" := by
  simp [Yaml.toString]

theorem fresh_fresh (id : NodeID) : Fresh id (fresh id) :=
  ⟨{}, ∅, {}, fromStr_empty, rfl⟩

theorem storage_fresh (id : NodeID) : (fresh id).storage =
    ⟨∅, [], {}, id, AList.insert dhtStorageName "{}" ∅⟩ := by
  have hr : (Yaml.fromStr (((∅ : HashMap String String).lookup dhtStorageName).getD "") :
      Option (HashMap RealmID RealmStorage)).getD ∅ = ∅ := by
    rw [AList.lookup_empty, Option.getD_none, fromStr_empty, Option.getD_none]
  simp only [fresh, Messages.new, Messages.store, hr, toString_empty]

theorem wrapYaml_storeFlo :
    NetworkWrapper.wrapYaml dhtStorageName (MessageClosest.storeFlo sharedFlo) =
      some (wrapper "StoreFlo") := by
  simp [NetworkWrapper.wrapYaml, Yaml.toString, wrapper]

-- A node gets the flo of a realm.
theorem storeFlo_fresh (id : NodeID) : ∃ m,
    (fresh id).storage.storeFlo sharedEnv sharedFlo =
      some (m, [.routing (.messageClosest sharedId (wrapper "StoreFlo"))]) ∧
    m.realms = founded id := by
  have hp : FloRealm.tryFrom sharedFlo = .ok { flo := sharedFlo, object := sharedRealm } := rfl
  have hc : (fresh id).storage.createRealm (sharedEnv.now 0)
      { flo := sharedFlo, object := sharedRealm } =
      .ok ((fresh id).storage.insertRealm sharedId
        (.new {} id 0 { flo := sharedFlo, object := sharedRealm })) := by
    rw [storage_fresh]
    refine Messages.createRealm_eq_ok.mpr ⟨rfl, ?_⟩
    rw [sharedFlo_realm]
    rfl
  have ht : (fresh id).storage.takeFlo sharedEnv sharedFlo =
      some ((fresh id).storage.insertRealm sharedId
        (.new {} id 0 { flo := sharedFlo, object := sharedRealm }), true) := by
    have hl : (fresh id).storage.realms.lookup sharedFlo.realm = none := by
      rw [storage_fresh, AList.lookup_empty]
    simp only [Messages.takeFlo, hl, hp, hc]
  have ha : Messages.announcements sharedFlo true =
      some [.routing (.messageClosest sharedId (wrapper "StoreFlo"))] := by
    have hn : sharedFlo.floConfig.cuckooParent = none := rfl
    simp [Messages.announcements, MessageClosest.toInternOut, wrapYaml_storeFlo, hn, sharedId]
  refine ⟨_, Messages.storeFlo_eq_some.mpr ⟨_, _, ht, rfl, ha⟩, ?_⟩
  rw [if_pos rfl, Messages.store_realms, storage_fresh]
  rfl

-- What comes from outside: the first node gets to know the other one, and it is given the flo.

def meet : Input :=
  .router quietEnv (.network (.nodeIdsConnected [near]))

def greet : Input :=
  .router quietEnv (.network (.networkWrapperFromNetwork near ⟨"", ""⟩))

def give : Input :=
  .storage sharedEnv (.storage (.storeFlo sharedFlo))

noncomputable def met : DHTRouter.Messages :=
  (((fresh .zero).router.message quietEnv (.network (.nodeIdsConnected [near]))).map
    Prod.fst).getD (fresh .zero).router

theorem exists_met : ∃ out, (fresh .zero).router.message quietEnv
    (.network (.nodeIdsConnected [near])) = some (met, out) := by
  have hs : ((fresh .zero).router.message quietEnv
      (.network (.nodeIdsConnected [near]))).isSome = true := by
    decide +kernel
  obtain ⟨⟨m, out⟩, hm⟩ := Option.isSome_iff_exists.mp hs
  refine ⟨out, ?_⟩
  rw [met, hm]
  rfl

noncomputable def greeted : DHTRouter.Messages :=
  { met with core := (met.core.nodeActive near).1 }

theorem exists_greeted : ∃ out, met.message quietEnv
    (.network (.networkWrapperFromNetwork near ⟨"", ""⟩)) = some (greeted, out) := by
  have hu : (⟨"", ""⟩ : NetworkWrapper).unwrapYaml DHTRouter.ModuleMessage
      DHTRouter.dhtRouterName = none :=
    if_neg (by decide)
  simp only [DHTRouter.Messages.message, DHTRouter.Messages.msgNetwork,
    DHTRouter.Messages.processNodeMessage, hu]
  exact ⟨_, rfl⟩

def wire : NetworkWrapper where
  moduleName := DHTRouter.dhtRouterName
  msg        := "Closest"

theorem wrapYaml_closest : NetworkWrapper.wrapYaml DHTRouter.dhtRouterName
    (DHTRouter.ModuleMessage.closest .zero sharedId (wrapper "StoreFlo")) = some wire := by
  simp [NetworkWrapper.wrapYaml, Yaml.toString, wire]

theorem unwrapYaml_wire : wire.unwrapYaml DHTRouter.ModuleMessage DHTRouter.dhtRouterName =
    some (.closest .zero sharedId (wrapper "StoreFlo")) := by
  simp [NetworkWrapper.unwrapYaml, Yaml.fromStr, wire]

-- The router of the first node sends the flo to the other node.
theorem message_greeted : greeted.message quietEnv
    (.dhtRouter (.messageClosest sharedId (wrapper "StoreFlo"))) =
      some (greeted, [.network (.networkWrapperToNetwork near wire)]) := by
  have hh : (greeted.closestOrConnected sharedId none).head? = some near := by decide +kernel
  have hr : greeted.core.root = .zero := by decide +kernel
  simp [DHTRouter.Messages.message, DHTRouter.Messages.msgDht, DHTRouter.Messages.newClosest, hh, hr,
    DHTRouter.ModuleMessage.wrapperNetwork, wrapYaml_closest]

-- The router of the other node hands it over to its storage.
theorem message_near : ∃ m out, (fresh near).router.message quietEnv
    (.network (.networkWrapperFromNetwork .zero wire)) = some (m, out) ∧
      .dhtRouter (.messageClosest .zero .zero sharedId (wrapper "StoreFlo")) ∈ out := by
  have hh : ((fresh near).router.closestOrConnected sharedId (some .zero)).head? = none := by
    decide +kernel
  have hn : sharedId ≠ (fresh near).router.core.root := by decide +kernel
  have hp : (fresh near).router.processModuleMessage quietEnv .zero
      (.closest .zero sharedId (wrapper "StoreFlo")) = some ((fresh near).router,
        [.dhtRouter (.messageClosest .zero .zero sharedId (wrapper "StoreFlo"))]) := by
    simp [DHTRouter.Messages.processModuleMessage, DHTRouter.Messages.messageClosest,
      DHTRouter.Messages.blacklistBadNodes, DHTRouter.Messages.randomlyWhitelist, quietEnv, hh, hn]
  simp only [DHTRouter.Messages.message, DHTRouter.Messages.msgNetwork,
    DHTRouter.Messages.processNodeMessage, unwrapYaml_wire, hp]
  exact ⟨_, _, rfl, List.mem_append_left _ List.mem_cons_self⟩

-- It is stored there.
theorem message_storage : ∃ m out, (fresh near).storage.message sharedEnv
    (.routing (.messageClosest .zero .zero sharedId (wrapper "StoreFlo"))) = some (m, out) ∧
      m.realms = founded near := by
  have hu : (wrapper "StoreFlo").unwrapYaml MessageClosest dhtStorageName =
      some (.storeFlo sharedFlo) := by
    simp [NetworkWrapper.unwrapYaml, Yaml.fromStr, wrapper]
  obtain ⟨m, hs, hr⟩ := storeFlo_fresh near
  refine ⟨m, [.routing (.messageClosest sharedId (wrapper "StoreFlo"))], ?_, hr⟩
  simp only [Messages.message, Messages.msgDhtRouter, hu, Messages.msgRouting]
  exact hs

-- Three inputs from outside, and three messages which are delivered.
theorem runs_founded : ∃ net : Net, network.Runs (Cluster.start fresh) net ∧
    net.inputs = [(.zero, meet), (.zero, greet), (.zero, give)] ∧
    (net.parties .zero).storage.realms = founded .zero ∧
    (net.parties near).storage.realms = founded near := by
  obtain ⟨o₁, hm₁⟩ := exists_met
  obtain ⟨o₂, hm₂⟩ := exists_greeted
  obtain ⟨m₃, hm₃, hr₃⟩ := storeFlo_fresh .zero
  obtain ⟨r₅, o₅, hm₅, ho₅⟩ := message_near
  obtain ⟨m₆, o₆, hm₆, hr₆⟩ := message_storage
  have hne : near ≠ .zero := by decide +kernel
  -- The states of the nodes, and of the network.
  let first : DHTNode := { fresh .zero with router := met }
  let second : DHTNode := { first with router := greeted }
  let third : DHTNode := { second with storage := m₃ }
  let fifth : DHTNode := { fresh near with router := r₅ }
  let sixth : DHTNode := { fifth with storage := m₆ }
  let net₀ : Net := Cluster.start fresh
  let net₁ := net₀.fed .zero meet first (o₁.map .router)
  let net₂ := net₁.fed .zero greet second (o₂.map .router)
  let net₃ := net₂.fed .zero give third
    [.storage (.routing (.messageClosest sharedId (wrapper "StoreFlo")))]
  let net₄ := net₃.after .zero third [.router (.network (.networkWrapperToNetwork near wire))]
  let net₅ := net₄.after near fifth (o₅.map .router)
  let net₆ := net₅.after near sixth (o₆.map .storage)
  have hm₃ : second.storage.message sharedEnv (.storage (.storeFlo sharedFlo)) = _ := hm₃
  have hm₄ : third.router.message quietEnv _ = _ := message_greeted
  have h₁ : network.Step net₀ net₁ :=
    .outside_of_eq rfl (show Outside meet from trivial) (handle_of_router hm₁)
  have hn₁ : net₁.parties .zero = first := parties_fed
  have h₂ : network.Step net₁ net₂ :=
    .outside_of_eq hn₁ (show Outside greet from show "" ≠ "DHTRouter" by decide)
      (handle_of_router hm₂)
  have hn₂ : net₂.parties .zero = second := parties_fed
  have h₃ : network.Step net₂ net₃ :=
    .outside_of_eq hn₂ (show Outside give from trivial) (handle_of_storage hm₃)
  have hn₃ : net₃.parties .zero = third := parties_fed
  have h₄ : network.Step net₃ net₄ :=
    .deliver_of_eq hn₃ (mem_outputs_fed List.mem_cons_self) (.toRouter quietEnv)
      (handle_of_router hm₄)
  have hn₄ : net₄.parties near = fresh near :=
    (parties_after_of_ne hne).trans <| (parties_fed_of_ne hne).trans <|
      (parties_fed_of_ne hne).trans <| parties_fed_of_ne hne
  have h₅ : network.Step net₄ net₅ :=
    .deliver_of_eq hn₄ (mem_outputs_after List.mem_cons_self) (.toNode quietEnv)
      (handle_of_router hm₅)
  have hn₅ : net₅.parties near = fifth := parties_after
  have h₆ : network.Step net₅ net₆ :=
    .deliver_of_eq hn₅ (mem_outputs_after <| List.mem_map_of_mem ho₅) (.toStorage sharedEnv)
      (handle_of_storage hm₆)
  have hz : net₆.parties .zero = third :=
    (parties_after_of_ne hne.symm).trans <| (parties_after_of_ne hne.symm).trans <| parties_after
  have hn : net₆.parties near = sixth := parties_after
  exact ⟨net₆, .trans (.tail (.tail (.single h₁) h₂) h₃) (.tail (.tail (.single h₄) h₅) h₆), rfl,
    (congrArg (·.storage.realms) hz).trans hr₃, (congrArg (·.storage.realms) hn).trans hr₆⟩

end DHTNode.Founded

namespace DHTNode

open Founded

attribute [local instance] Sha256.rolling Sync.sharedReader realmsYaml closestYaml neighbourYaml
  destYaml routerYaml

theorem provenance_founded : ∃ net : Net, network.Runs (Cluster.start fresh) net ∧
    net.inputs = [(.zero, meet), (.zero, greet), (.zero, give)] ∧
    (net.parties .zero).storage.realms = founded .zero ∧
    (net.parties near).storage.realms = founded near ∧
    (∀ id rid s, (net.parties id).storage.realms.lookup rid = some s →
      ∀ fid fs, s.flos.lookup fid = some fs → fs.flo.realm = rid ∧ fs.flo.floId = fid ∧
        FloCuckoo.Genuine net.HandedIn (fs.flo, fs.cuckoos)) ∧
    ∀ id out, (id, .storage (.storage out)) ∈ net.outputs → out.Genuine net.HandedIn := by
  obtain ⟨net, hrun, hi, hz, hn⟩ := runs_founded
  refine ⟨net, hrun, hi, hz, hn, ?_⟩
  exact provenance yamlFaithful (Yaml.table_faithful (by decide)) fresh_fresh hrun

end DHTNode
