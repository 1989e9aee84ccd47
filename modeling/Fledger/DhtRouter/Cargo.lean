import Fledger.DhtRouter.Routing

namespace DHTRouter

-- What may be sent towards a key, to one node, and to the neighbours. A message which arrives at the
-- node with its key is handed over as if it had been sent to the node.
structure Cargo where
  closest   : U256 → NetworkWrapper → Prop
  dest      : NetworkWrapper → Prop
  neighbour : NetworkWrapper → Prop
  arrives   : ∀ {key msg}, closest key msg → dest msg

namespace Cargo

variable (c : Cargo)

def Asked : DHTRouterIn → Prop
  | .messageBroadcast msg | .messageNeighbour _ msg => c.neighbour msg
  | .messageClosest key msg                         => c.closest key msg
  | .messageDirect _ msg                            => c.dest msg

def Told : DHTRouterOut → Prop
  | .messageNeighbour _ msg                                     => c.neighbour msg
  | .messageRouting _ _ _ key msg | .messageClosest _ _ key msg => c.closest key msg
  | .messageDest _ _ msg                                        => c.dest msg
  | .nodeList _ | .systemRealm _                                => True

def Sealed : ModuleMessage → Prop
  | .closest _ key msg => c.closest key msg
  | .direct _ _ msg    => c.dest msg
  | .neighbour msg     => c.neighbour msg
  | _                  => True

variable [Yaml ModuleMessage]

def Packed (w : NetworkWrapper) : Prop :=
  ∀ s, w.unwrapYaml ModuleMessage dhtRouterName = some s → c.Sealed s

def In : InternIn → Prop
  | .dhtRouter msg                               => c.Asked msg
  | .network (.networkWrapperFromNetwork _ msg) => c.Packed msg
  | _                                            => True

def Out : InternOut → Prop
  | .dhtRouter msg                            => c.Told msg
  | .network (.networkWrapperToNetwork _ msg) => c.Packed msg

variable {c} {m m' : Messages} {env : Env} {s : ModuleMessage} {out : List InternOut}
  {o : InternOut} {x orig l key dst : NodeID} {msg w : NetworkWrapper} {nextHop : Option NodeID}

theorem packed_of_wrapYaml (hy : Yaml.Faithful ModuleMessage) (h : c.Sealed s)
    (hw : NetworkWrapper.wrapYaml dhtRouterName s = some w) : c.Packed w :=
  fun _ hu => NetworkWrapper.eq_of_unwrapYaml hy hw hu ▸ h

theorem out_of_wrapperNetwork (hy : Yaml.Faithful ModuleMessage) (h : c.Sealed s)
    (ho : s.wrapperNetwork dst = some o) : c.Out o := by
  obtain ⟨w, hw, rfl⟩ := wrapperNetwork_eq_some ho
  exact packed_of_wrapYaml hy h hw

theorem out_of_mapM (hy : Yaml.Faithful ModuleMessage) (h : c.Sealed s) {nodes : List NodeID}
    (ho : nodes.mapM s.wrapperNetwork = some out) : ∀ o ∈ out, c.Out o := by
  induction nodes generalizing out
  case nil => cases ho; exact fun _ hm => absurd hm List.not_mem_nil
  case cons node nodes hi =>
    simp only [List.mapM_cons, Option.bind_eq_bind, Option.bind_eq_some_iff, Option.pure_def,
      Option.some.injEq] at ho
    obtain ⟨o, ho, rest, hrest, rfl⟩ := ho
    exact List.forall_mem_cons.mpr ⟨out_of_wrapperNetwork hy h ho, hi hrest⟩

-- The next hop gets the message as it is.
theorem out_of_forward (hy : Yaml.Faithful ModuleMessage) (h : c.Sealed s)
    (hf : (match nextHop with
      | some nextHop => do return [← s.wrapperNetwork nextHop]
      | none         => some []) = some out) : ∀ o ∈ out, c.Out o := by
  rcases Messages.forward_eq_some hf with ⟨_, rfl⟩ | ⟨y, w, _, hw, rfl⟩
  · exact fun _ hm => absurd hm List.not_mem_nil
  · exact List.forall_mem_singleton.mpr <| packed_of_wrapYaml hy h hw

theorem out_of_msgDht (hy : Yaml.Faithful ModuleMessage) {sent : DHTRouterIn} (h : c.Asked sent)
    (hs : m.msgDht sent = some out) : ∀ o ∈ out, c.Out o := by
  cases sent <;> simp only [Messages.msgDht] at hs
  case messageBroadcast msg  => exact out_of_mapM (s := .neighbour msg) hy h hs
  case messageClosest        => exact out_of_forward (s := .closest ..) hy h hs
  case messageDirect         => exact out_of_forward (s := .direct ..) hy h hs
  case messageNeighbour      =>
    split at hs
    case isFalse => cases hs; exact fun _ hm => absurd hm List.not_mem_nil
    case isTrue  =>
      obtain ⟨o, ho, hs⟩ := Option.bind_eq_some_iff.mp hs
      cases hs
      exact List.forall_mem_singleton.mpr <| out_of_wrapperNetwork (s := .neighbour _) hy h ho

theorem out_of_messageDirect (hy : Yaml.Faithful ModuleMessage) (h : c.dest msg)
    (hs : m.messageDirect env orig l dst msg = some out) : ∀ o ∈ out, c.Out o := by
  unfold Messages.messageDirect at hs
  split at hs
  case isTrue  => cases hs; exact List.forall_mem_singleton.mpr h
  case isFalse => exact out_of_forward (s := .direct ..) hy h hs

variable [Yaml MessageClosest]

theorem out_of_messageClosest (hy : Yaml.Faithful ModuleMessage) (h : c.closest key msg)
    (hs : m.messageClosest env orig l key msg = some (m', out)) : ∀ o ∈ out, c.Out o := by
  obtain ⟨_, _, _, _, ⟨_, _, rfl⟩ | ⟨y, w, _, _, hw, rfl⟩⟩ := Messages.messageClosest_cases hs
  · refine List.forall_mem_singleton.mpr ?_
    split
    case isTrue  => exact c.arrives h
    case isFalse => exact h
  · refine List.forall_mem_cons.mpr ⟨?_, List.forall_mem_singleton.mpr h⟩
    exact packed_of_wrapYaml (s := .closest ..) hy h hw

theorem out_of_processModuleMessage (hy : Yaml.Faithful ModuleMessage) (h : c.Sealed s)
    (hs : m.processModuleMessage env x s = some (m', out)) : ∀ o ∈ out, c.Out o := by
  cases s <;> simp only [Messages.processModuleMessage] at hs
  case pong      => cases hs; exact fun _ hm => absurd hm List.not_mem_nil
  case closest   => exact out_of_messageClosest hy h hs
  case neighbour => cases hs; exact List.forall_mem_singleton.mpr h
  case direct    =>
    obtain ⟨_, ho, hs⟩ := Option.bind_eq_some_iff.mp hs
    cases hs
    exact out_of_messageDirect hy h ho
  case ping | connectedIdsRequest =>
    obtain ⟨o, ho, hs⟩ := Option.bind_eq_some_iff.mp hs
    cases hs
    refine List.forall_mem_singleton.mpr <| out_of_wrapperNetwork hy ?_ ho
    trivial
  case connectedIdsReply =>
    obtain ⟨_, _, hs⟩ := Option.bind_eq_some_iff.mp hs
    cases hs
    exact List.forall_mem_singleton.mpr trivial

theorem out_of_processNodeMessage (hy : Yaml.Faithful ModuleMessage) (h : c.Packed w)
    (hs : m.processNodeMessage env x w = some (m', out)) : ∀ o ∈ out, c.Out o := by
  have hlist {core : Kademlia} {isNew : Bool} : ∀ o ∈ (if isNew = true then
      [InternOut.dhtRouter (.nodeList core.activeNodes)] else []), c.Out o := by
    split
    case isTrue  => exact List.forall_mem_singleton.mpr trivial
    case isFalse => exact fun _ hm => absurd hm List.not_mem_nil
  simp only [Messages.processNodeMessage] at hs
  split at hs
  case h_1 hu =>
    obtain ⟨_, hp, hs⟩ := Option.bind_eq_some_iff.mp hs
    cases hs
    exact List.forall_mem_append.mpr ⟨out_of_processModuleMessage hy (h _ hu) hp, hlist⟩
  case h_2    =>
    cases hs
    exact hlist

theorem out_of_msgNetwork (hy : Yaml.Faithful ModuleMessage) {msg : RouterOut}
    (h : c.In (.network msg)) (hs : m.msgNetwork env msg = some (m', out)) :
    ∀ o ∈ out, c.Out o := by
  have hnodes {m : Messages} {nodes : List NodeID} {out : List InternOut}
      (hs : m.addNodes env nodes = some (m', out)) : ∀ o ∈ out, c.Out o := by
    obtain ⟨_, _, hs⟩ := Option.bind_eq_some_iff.mp hs
    cases hs
    exact List.forall_mem_singleton.mpr trivial
  cases msg <;> simp only [Messages.msgNetwork] at hs
  case nodeIdsConnected => exact hnodes hs
  case nodeInfoAvailable =>
    obtain ⟨_, _, hs⟩ := Option.bind_eq_some_iff.mp hs
    exact hnodes hs
  case disconnected =>
    obtain ⟨_, _, hs⟩ := Option.bind_eq_some_iff.mp hs
    cases hs
    exact fun _ hm => absurd hm List.not_mem_nil
  case systemConfig conf =>
    cases hs
    intro o hm
    obtain ⟨_, _, rfl⟩ := Option.map_eq_some_iff.mp (Option.mem_toList.mp hm)
    trivial
  case networkWrapperFromNetwork => exact out_of_processNodeMessage hy h hs
  all_goals
    cases hs
    exact fun _ hm => absurd hm List.not_mem_nil

-- The router hands over and sends what it gets, and it makes up nothing.
theorem out_of_message (hy : Yaml.Faithful ModuleMessage) {input : InternIn} (h : c.In input)
    (hs : m.message env input = some (m', out)) : ∀ o ∈ out, c.Out o := by
  cases input <;> simp only [Messages.message] at hs
  case network   => exact out_of_msgNetwork hy h hs
  case dhtRouter =>
    obtain ⟨_, ho, hs⟩ := Option.bind_eq_some_iff.mp hs
    cases hs
    exact out_of_msgDht hy h ho
  case tick      =>
    simp only [Messages.tick, Option.bind_eq_bind, Option.bind_eq_some_iff, Option.pure_def,
      Option.some.injEq, Prod.mk.injEq, Prod.exists] at hs
    obtain ⟨_, _, _, _, hp, _, hr, rfl, rfl⟩ := hs
    refine List.forall_mem_append.mpr ⟨?_, ?_⟩
    · exact out_of_mapM (s := .ping) hy trivial hp
    · exact out_of_mapM (s := .connectedIdsRequest) hy trivial hr

end Cargo

end DHTRouter
