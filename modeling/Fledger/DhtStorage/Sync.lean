import Fledger.DhtStorage.Exchange
import Fledger.Flo.Concrete
import Mathlib.Logic.Relation

-- Two connected nodes, and what is on the way to each of them.
structure Sync where
  a   : Messages
  b   : Messages
  toA : List NetworkWrapper
  toB : List NetworkWrapper

namespace Sync

open MessageNeighbour

variable [Sha256] [RealmReader] [Yaml (HashMap RealmID RealmStorage)] [Yaml MessageClosest]
  [Yaml MessageNeighbour] [Yaml MessageDest]

-- The next message is delivered to one of the nodes.
inductive Step (idA idB : NodeID) : Sync → Sync → Prop
  | deliverA {a a' b : Messages} {w : NetworkWrapper} {toA toB : List NetworkWrapper} {env : Env}
    {out : List InternOut} (honest : env.evilNoForward = false)
    (handled : a.message env (.routing (.messageNeighbour idB w)) = some (a', out)) :
    Step idA idB ⟨a, b, w :: toA, toB⟩ ⟨a', b, toA, toB ++ sentTo idB out⟩
  | deliverB {a b b' : Messages} {w : NetworkWrapper} {toA toB : List NetworkWrapper} {env : Env}
    {out : List InternOut} (honest : env.evilNoForward = false)
    (handled : b.message env (.routing (.messageNeighbour idA w)) = some (b', out)) :
    Step idA idB ⟨a, b, toA, w :: toB⟩ ⟨a, b', toA ++ sentTo idA out, toB⟩

-- What is assumed: there is room at `B` for the flos it receives, and all messages can be written.
structure Calm (s : Sync) : Prop where
  room  : ∀ fcs, Next s.toB (.flos fcs) → ∀ env, s.b.RoomFor env fcs
  yamlA : ∀ msg, Next s.toA msg → ∀ ans ∈ s.a.replies msg, Yaml.Lossless ans
  yamlB : ∀ msg, Next s.toB msg → ∀ ans ∈ s.b.replies msg, Yaml.Lossless ans

-- What still has to reach `B`, with the answers to what is on the way to `A`.
def pending (s : Sync) : List MessageNeighbour :=
  received s.toB ++ (received s.toA).flatMap s.a.replies

section Deliver

variable {m m' : Messages} {env : Env} {origin : NodeID} {w : NetworkWrapper}
  {msg : MessageNeighbour} {out : List InternOut} {channel : List NetworkWrapper}

omit [Sha256] [RealmReader] [Yaml (HashMap RealmID RealmStorage)] [Yaml MessageClosest]
  [Yaml MessageDest] in
theorem received_cons (w : NetworkWrapper) (channel : List NetworkWrapper) :
    received (w :: channel) =
      (w.unwrapYaml MessageNeighbour dhtStorageName).toList ++ received channel := by
  unfold received
  cases hu : w.unwrapYaml MessageNeighbour dhtStorageName
  case none     => rw [List.filterMap_cons, hu, Option.toList_none, List.nil_append]
  case some msg => rw [List.filterMap_cons, hu, Option.toList_some, List.singleton_append]

-- A node ignores what it can not read.
theorem handled_of_none (hu : w.unwrapYaml MessageNeighbour dhtStorageName = none)
    (hm : m.message env (.routing (.messageNeighbour origin w)) = some (m', out)) :
    m' = m ∧ out = [] := by
  simp only [Messages.message, Messages.msgDhtRouter, hu, Option.some.injEq, Prod.mk.injEq] at hm
  exact ⟨hm.left.symm, hm.right.symm⟩

theorem handled_of_some (hu : w.unwrapYaml MessageNeighbour dhtStorageName = some msg)
    (hm : m.message env (.routing (.messageNeighbour origin w)) = some (m', out)) :
    m.msgNeighbour env origin msg = some (m', out) := by
  simpa only [Messages.message, Messages.msgDhtRouter, hu] using hm

-- What is sent back is received in the end.
theorem received_sentTo_out (he : env.evilNoForward = false)
    (hy : ∀ msg, Next (w :: channel) msg → ∀ ans ∈ m.replies msg, Yaml.Lossless ans)
    (hm : m.message env (.routing (.messageNeighbour origin w)) = some (m', out)) :
    received (sentTo origin out) =
      (w.unwrapYaml MessageNeighbour dhtStorageName).toList.flatMap m.replies := by
  cases hu : w.unwrapYaml MessageNeighbour dhtStorageName
  case none =>
    rw [(handled_of_none hu hm).right]
    rfl
  case some msg =>
    have hr : m.replies msg = (m.answer env msg).filter isSent :=
      congrArg (List.filter isSent) (congrFun (Messages.answer_congr he.symm) msg)
    have hy := hy msg ⟨w, rfl, hu⟩
    rw [hr] at hy
    rw [Messages.out_of_msgNeighbour (handled_of_some hu hm), received_sentTo hy, ← hr,
      Option.toList_some, List.flatMap_singleton]

omit [RealmReader] [Yaml (HashMap RealmID RealmStorage)] [Yaml MessageClosest]
  [Yaml MessageNeighbour] [Yaml MessageDest] in
theorem isRequest_replies {ans : MessageNeighbour} (h : ans ∈ m.replies msg) :
    ans.isRequest = !msg.isRequest :=
  Messages.isRequest_answer (List.mem_of_mem_filter h)

end Deliver

variable {a b : Messages} {idA idB : NodeID} {s s' : Sync} {config : DHTConfig}

-- `A` only gets requests, which do not change it, and each of its flos is on its way to `B`.
structure Invariant (a : Messages) (config : DHTConfig) (s : Sync) : Prop where
  responder : s.a = a
  wf        : s.b.Wf
  accepts   : s.b.config = config
  requests  : ∀ msg ∈ received s.toA, msg.isRequest = true
  offers    : ∀ msg ∈ received s.toB, msg.isRequest = false
  covered   : ∀ {rid st flo}, a.Offers rid st flo → config.acceptsRealm rid = true →
    Messages.Covered a s.b s.pending rid st flo

-- `A` takes a request, and sends its answers to `B`.
theorem Invariant.deliverA {a' b : Messages} {w : NetworkWrapper} {toA toB : List NetworkWrapper}
    {env : Env} {out : List InternOut} (h : Invariant a config ⟨a, b, w :: toA, toB⟩)
    (hc : Calm ⟨a, b, w :: toA, toB⟩) (he : env.evilNoForward = false)
    (hm : a.message env (.routing (.messageNeighbour idB w)) = some (a', out)) :
    Invariant a config ⟨a', b, toA, toB ++ sentTo idB out⟩ := by
  have hreq := h.requests
  have hsent := received_sentTo_out he hc.yamlA hm
  simp only [received_cons, List.forall_mem_append] at hreq
  have ha : a' = a := by
    cases hu : w.unwrapYaml MessageNeighbour dhtStorageName
    case none => exact (handled_of_none hu hm).left
    case some msg =>
      refine Messages.eq_of_msgNeighbour (handled_of_some hu hm) fun fcs hf => ?_
      have hreq := hreq.left msg (by simp [hu])
      simp [hf, isRequest] at hreq
  refine ⟨ha, h.wf, h.accepts, hreq.right, ?_, ?_⟩
  case refine_1 =>
    simp only [received_append, hsent, List.forall_mem_append]
    refine ⟨h.offers, fun ans hans => ?_⟩
    have ⟨msg, hm, hans⟩ := List.mem_flatMap.mp hans
    rw [isRequest_replies hans, hreq.left msg hm, Bool.not_true]
  case refine_2 =>
    intro rid st flo ho hr
    have hcov := h.covered ho hr
    simpa only [pending, received_append, received_cons, hsent, ha, List.flatMap_append,
      List.append_assoc] using hcov

-- `B` takes an answer, and sends its next requests to `A`.
theorem Invariant.deliverB {b b' : Messages} {w : NetworkWrapper} {toA toB : List NetworkWrapper}
    {env : Env} {out : List InternOut} (h : Invariant a config ⟨a, b, toA, w :: toB⟩)
    (hc : Calm ⟨a, b, toA, w :: toB⟩) (he : env.evilNoForward = false)
    (hm : b.message env (.routing (.messageNeighbour idA w)) = some (b', out)) :
    Invariant a config ⟨a, b', toA ++ sentTo idA out, toB⟩ := by
  have hoff := h.offers
  have hsent := received_sentTo_out he hc.yamlB hm
  simp only [received_cons, List.forall_mem_append] at hoff
  have hroom (msg) (hu : w.unwrapYaml MessageNeighbour dhtStorageName = some msg) :
      ∀ fcs, msg = .flos fcs → b.RoomFor env fcs :=
    fun fcs hf => hc.room fcs ⟨w, rfl, hf ▸ hu⟩ env
  refine ⟨rfl, h.wf.message hm, ?_, ?_, hoff.right, ?_⟩
  case refine_1 =>
    cases hu : w.unwrapYaml MessageNeighbour dhtStorageName
    case none => exact (handled_of_none hu hm).left ▸ h.accepts
    case some msg =>
      exact (Messages.grows_of_msgNeighbour (handled_of_some hu hm) h.wf (hroom msg hu)).config.trans
        h.accepts
  case refine_2 =>
    simp only [received_append, hsent, List.forall_mem_append]
    refine ⟨h.requests, fun ans hans => ?_⟩
    have ⟨msg, hm, hans⟩ := List.mem_flatMap.mp hans
    rw [isRequest_replies hans, hoff.left msg hm, Bool.not_false]
  case refine_3 =>
    intro rid st flo ho hr
    have hcov := h.covered ho hr
    simp only [pending, received_append, received_cons, hsent, List.flatMap_append,
      List.append_assoc] at hcov ⊢
    cases hu : w.unwrapYaml MessageNeighbour dhtStorageName
    case none =>
      have hb := (handled_of_none hu hm).left
      simpa [hu, hb] using hcov
    case some msg =>
      rw [hu, Option.toList_some, List.singleton_append] at hcov
      rw [Option.toList_some, List.flatMap_singleton, ← List.append_assoc]
      exact hcov.handle ho (h.accepts ▸ hr) h.wf (handled_of_some hu hm) (hroom msg hu)

theorem Invariant.step (h : Invariant a config s) (hc : s.Calm) (hs : Step idA idB s s') :
    Invariant a config s' := by
  cases hs
  case deliverA he hm =>
    obtain rfl := h.responder
    exact h.deliverA hc he hm
  case deliverB he hm =>
    obtain rfl := h.responder
    exact h.deliverB hc he hm

-- The run of the protocol, up to some state.
def Runs (idA idB : NodeID) : Sync → Sync → Prop :=
  Relation.ReflTransGen fun s s' => s.Calm ∧ Step idA idB s s'

theorem Invariant.runs (h : Invariant a config s) (hr : Runs idA idB s s') :
    Invariant a config s' := by
  induction hr
  case refl            => exact h
  case tail hstep hi   => exact hi.step hstep.left hstep.right

theorem invariant_start {b₀ : Messages} {env : Env} {out : List InternOut}
    (hb : b.Wf) (hy : Yaml.Lossless MessageNeighbour.requestRealmIds)
    (hs : b.message env (.storage .syncFromNeighbors) = some (b₀, out)) :
    Invariant a b.config ⟨a, b₀, sentTo idA out, []⟩ := by
  have ⟨w, hw, hu⟩ := NetworkWrapper.wrapYaml_of_lossless hy dhtStorageName
  have hbcast : requestRealmIds.toBroadcast = some (.routing (.messageBroadcast w)) := by
    simp [toBroadcast, isSent, hw]
  simp only [Messages.message, Messages.msgDhtStorage, hbcast] at hs
  cases hs
  have hrec : received (sentTo idA [.routing (.messageBroadcast w)]) = [requestRealmIds] := by
    simp [sentTo, received, hu]
  refine ⟨rfl, hb, rfl, ?_, fun _ hm => absurd hm List.not_mem_nil, fun ho _ => ?_⟩
  case refine_1 => rw [hrec]; exact fun msg hm => List.mem_singleton.mp hm ▸ rfl
  case refine_2 =>
    have hm := HashMap.mem_iff_lookup.mpr ⟨_, ho.lookup⟩
    refine .offered ?_ (AList.mem_keys.mp hm)
    rw [pending, hrec, List.flatMap_singleton, Messages.replies_requestRealmIds hm]
    simp

-- Once all messages have been delivered, `B` has everything `A` has in the realms it accepts.
theorem synced {b₀ a' b' : Messages} {env : Env} {out : List InternOut}
    (ha : a.Reachable) (hb : b.Reachable)
    (hrealms : ∀ rid s, a.realms.lookup rid = some s →
      ∃ fs, s.flos.lookup rid = some fs ∧ Messages.Opens fs.flo)
    (hy : Yaml.Lossless MessageNeighbour.requestRealmIds)
    (hs : b.message env (.storage .syncFromNeighbors) = some (b₀, out))
    (hr : Runs idA idB ⟨a, b₀, sentTo idA out, []⟩ ⟨a', b', [], []⟩) :
    ∀ rid s id fs, a.realms.lookup rid = some s → b.config.acceptsRealm rid = true →
      s.flos.lookup id = some fs → b'.Holds rid id fs.version := by
  intro rid s id fs hl hacc hf
  have hosts := ha.wf.hosts hl
  have hid := hosts.reachable.wf.keyed hf
  have ⟨fs₀, hf₀, hopens⟩ := hrealms rid s hl
  have ho : a.Offers rid s fs.flo :=
    ⟨hl, ⟨fs, hid ▸ hf, rfl⟩, hosts.realm hf, fs₀, hf₀, hosts.realm hf₀, hopens⟩
  have hcov := (invariant_start hb.wf hy hs |>.runs hr).covered ho hacc
  cases hcov
  case held hh         => exact hid ▸ hh
  case sent hm _       => exact absurd hm List.not_mem_nil
  case offered hm _    => exact absurd hm List.not_mem_nil
  case listed msgs₁ msgs₂ he _ => exact absurd he (by simp [pending, received])

end Sync

namespace Sync

open MessageNeighbour

attribute [local instance] Sha256.rolling

-- A node with a realm, and one without.

def sharedRealm : Realm where
  name     := "sample"
  config   := { maxSpace := 1000, maxFloSize := 0 }
  services := ∅

def sharedFlo : Flo :=
  let flo := { Flo.sample .zero 0 5 with floType := "flmodules::flo::realm::Realm" }
  { flo with realm := flo.floId }

def sharedId : RealmID :=
  sharedFlo.floId

def sharedStorage : RealmStorage :=
  .new {} .zero 0 { flo := sharedFlo, object := sharedRealm }

abbrev sharedReader : RealmReader where
  fromRmpBytes _ := some sharedRealm

abbrev sharedRealms : Yaml (HashMap RealmID RealmStorage) where
  toString _ := some "realms"
  fromStr s  := if s = "realms" then some (AList.singleton sharedId sharedStorage) else none

-- Each kind of message is sent once, or not at all.
abbrev sharedYaml : Yaml MessageNeighbour where
  toString
    | .requestRealmIds     => some "RequestRealmIDs"
    | .availableRealmIds _ => some "AvailableRealmIDs"
    | .requestFloMetas _   => some "RequestFloMetas"
    | .availableFlos ..    => some "AvailableFlos"
    | .requestFlos ..      => some "RequestFlos"
    | .flos _              => some "Flos"
  fromStr s :=
    if s = "RequestRealmIDs" then some .requestRealmIds
    else if s = "AvailableRealmIDs" then some (.availableRealmIds [sharedId])
    else if s = "RequestFloMetas" then some (.requestFloMetas sharedId)
    else if s = "AvailableFlos" then some (.availableFlos sharedId sharedStorage.getFloMetas)
    else if s = "RequestFlos" then some (.requestFlos sharedId [sharedId])
    else if s = "Flos" then some (.flos [(sharedFlo, [])])
    else none

abbrev sharedClosest : Yaml MessageClosest where
  toString _ := some "closest"
  fromStr _  := none

abbrev sharedDest : Yaml MessageDest where
  toString _ := none
  fromStr _  := none

attribute [local instance] sharedReader sharedRealms sharedYaml sharedClosest sharedDest

def sharing : Messages :=
  .new (AList.singleton dhtStorageName "realms") {} .zero

def joining : Messages :=
  .new ∅ {} .zero

def sharedEnv : Env where
  fuel          := 0
  now _         := 0
  rnd           := .zero
  evilNoForward := false

def wrapper (msg : String) : NetworkWrapper where
  moduleName := dhtStorageName
  msg        := msg

theorem sharedFlo_realm : sharedFlo.realm = sharedId := by
  decide +kernel

theorem sharedStorage_lookup :
    sharedStorage.flos.lookup sharedId = some (.ofFlo 0 sharedFlo) := by
  rw [sharedStorage, RealmStorage.new, RealmStorage.lookup_put]
  exact if_pos rfl

theorem sharing_realms : sharing.realms = AList.singleton sharedId sharedStorage := by
  rw [sharing, Messages.new, Messages.store_realms]
  rfl

theorem joining_realms : joining.realms = ∅ := by
  rw [joining, Messages.new, Messages.store_realms]
  rfl

theorem sharing_lookup {rid : RealmID} {s : RealmStorage} :
    sharing.realms.lookup rid = some s ↔ rid = sharedId ∧ s = sharedStorage := by
  rw [sharing_realms]
  change ((∅ : HashMap RealmID RealmStorage).insert sharedId sharedStorage).lookup rid = some s ↔ _
  rw [HashMap.lookup_insert_eq]
  split <;> simp_all [eq_comm]

theorem sharing_reachable : sharing.Reachable := by
  refine .new _ _ _ ⟨fun hl => ?_⟩
  have ⟨hr, hs⟩ := sharing_lookup.mp hl
  exact hs ▸ hr ▸ sharedFlo_realm ▸ RealmStorage.hosts_new ..

theorem joining_reachable : joining.Reachable := by
  refine .new _ _ _ ⟨fun {rid s} hl => ?_⟩
  have hl : joining.realms.lookup rid = some s := hl
  rw [joining_realms] at hl
  cases hl

section Read

variable {name : String} {msg : MessageNeighbour} {m b : Messages}

-- The messages which are sent, and how they are written.
inductive Shared : String → MessageNeighbour → Prop
  | requestRealmIds   : Shared "RequestRealmIDs" .requestRealmIds
  | availableRealmIds : Shared "AvailableRealmIDs" (.availableRealmIds [sharedId])
  | requestFlos       : Shared "RequestFlos" (.requestFlos sharedId [sharedId])
  | requestFloMetas   : Shared "RequestFloMetas" (.requestFloMetas sharedId)
  | flos              : Shared "Flos" (.flos [(sharedFlo, [])])
  | availableFlos     : Shared "AvailableFlos" (.availableFlos sharedId sharedStorage.getFloMetas)

theorem Shared.read (h : Shared name msg) :
    (wrapper name).unwrapYaml MessageNeighbour dhtStorageName = some msg := by
  cases h <;> rfl

theorem Shared.lossless (h : Shared name msg) : Yaml.Lossless msg := by
  cases h <;> exact ⟨_, rfl, rfl⟩

theorem sharing_replies (h : Shared name msg) (hm : msg.isRequest = true) :
    ∀ ans ∈ sharing.replies msg, ∃ name, Shared name ans := by
  have hl := sharing_lookup.mpr ⟨rfl, rfl⟩
  cases h <;> simp only [isRequest, Bool.false_eq_true] at hm
  case requestRealmIds =>
    rw [Messages.replies_requestRealmIds (HashMap.mem_iff_lookup.mpr ⟨_, hl⟩), sharing_realms]
    exact List.forall_mem_singleton.mpr ⟨_, .availableRealmIds⟩
  case requestFloMetas =>
    rw [Messages.replies_requestFloMetas hl sharedStorage_lookup]
    exact List.forall_mem_singleton.mpr ⟨_, .availableFlos⟩
  case requestFlos =>
    have hr : sharing.replies (.requestFlos sharedId [sharedId]) = [.flos [(sharedFlo, [])]] := by
      simp [Messages.replies, Messages.answer, hl, RealmStorage.getFloCuckoo, sharedStorage_lookup,
        isSent, FloStorage.ofFlo]
    rw [hr]
    exact List.forall_mem_singleton.mpr ⟨_, .flos⟩

theorem joining_replies : joining.replies (.availableRealmIds [sharedId]) =
    [.requestFlos sharedId [sharedId], .requestFloMetas sharedId] := by
  rw [Messages.replies_availableRealmIds, joining_realms]
  rfl

def stage (b : Messages) (toA toB : List String) : Sync :=
  ⟨sharing, b, toA.map wrapper, toB.map wrapper⟩

-- What is delivered next is read, and it can be answered.
theorem calm_stage {toA toB : List String}
    (ha : ∀ name ∈ toA.head?, ∃ msg, Shared name msg ∧ msg.isRequest = true)
    (hb : ∀ name ∈ toB.head?, ∃ msg, Shared name msg ∧
      (∀ ans ∈ b.replies msg, ∃ name, Shared name ans) ∧
      ∀ fcs, msg = .flos fcs → ∀ env, b.RoomFor env fcs) : (stage b toA toB).Calm := by
  have hnext {names : List String} {msg : MessageNeighbour} (hn : Next (names.map wrapper) msg) :
      ∃ name ∈ names.head?, ∀ msg', Shared name msg' → msg = msg' := by
    have ⟨w, hw, hu⟩ := hn
    rw [List.head?_map] at hw
    have ⟨name, hm, hw⟩ := Option.map_eq_some_iff.mp hw
    exact ⟨name, hm, fun msg' h => Option.some.inj <| hu.symm.trans (hw ▸ h.read)⟩
  refine ⟨fun fcs hn => ?_, fun msg hn => ?_, fun msg hn => ?_⟩
  case refine_1 =>
    have ⟨name, hm, he⟩ := hnext hn
    have ⟨msg, h, _, hroom⟩ := hb name hm
    exact hroom fcs (he msg h).symm
  case refine_2 =>
    have ⟨name, hm, he⟩ := hnext hn
    have ⟨msg', h, hreq⟩ := ha name hm
    intro ans hans
    have ⟨_, h⟩ := sharing_replies h hreq ans (he msg' h ▸ hans)
    exact h.lossless
  case refine_3 =>
    have ⟨name, hm, he⟩ := hnext hn
    have ⟨msg', h, hans', _⟩ := hb name hm
    intro ans hans
    have ⟨_, h⟩ := hans' ans (he msg' h ▸ hans)
    exact h.lossless

theorem message_of_shared {origin : NodeID} (h : Shared name msg) (hm : ∀ fcs, msg ≠ .flos fcs) :
    m.message sharedEnv (.routing (.messageNeighbour origin (wrapper name))) =
      some (m, (m.answer sharedEnv msg).filterMap (·.toNeighbour origin)) := by
  simp only [Messages.message, Messages.msgDhtRouter, h.read]
  cases msg
  case flos fcs => exact absurd rfl (hm fcs)
  all_goals rfl

theorem step_sharing {toA toB : List String} (sent : List String) (h : Shared name msg)
    (hm : msg.isRequest = true)
    (hs : sentTo joining.ourId ((sharing.answer sharedEnv msg).filterMap
      (·.toNeighbour joining.ourId)) = sent.map wrapper) :
    Step sharing.ourId joining.ourId (stage b (name :: toA) toB) (stage b toA (toB ++ sent)) := by
  rw [stage, stage, List.map_append, ← hs]
  exact .deliverA rfl <| message_of_shared h fun fcs hf => by simp [hf, isRequest] at hm

theorem step_joining {toA toB : List String} (sent : List String) (h : Shared name msg)
    (hm : ∀ fcs, msg ≠ .flos fcs)
    (hs : sentTo sharing.ourId ((b.answer sharedEnv msg).filterMap
      (·.toNeighbour sharing.ourId)) = sent.map wrapper) :
    Step sharing.ourId joining.ourId (stage b toA (name :: toB)) (stage b (toA ++ sent) toB) := by
  rw [stage, stage, List.map_append, ← hs]
  exact .deliverB rfl <| message_of_shared h hm

end Read

def joined : Messages :=
  (joining.storeFloCuckoos sharedEnv [(sharedFlo, [])]).getD joining

theorem storeFloCuckoos_joined :
    joining.storeFloCuckoos sharedEnv [(sharedFlo, [])] = some joined := by
  have hs : (joining.storeFloCuckoos sharedEnv [(sharedFlo, [])]).isSome = true := by
    decide +kernel
  have ⟨m, hm⟩ := Option.isSome_iff_exists.mp hs
  rw [joined, hm, Option.getD_some]

theorem joined_replies :
    joined.replies (.availableFlos sharedId sharedStorage.getFloMetas) = [] := by
  have hl : (joined.replies (.availableFlos sharedId sharedStorage.getFloMetas)).length = 0 := by
    decide +kernel
  exact List.eq_nil_of_length_eq_zero hl

theorem joining_room (env : Env) : joining.RoomFor env [(sharedFlo, [])] := by
  refine ⟨fun s hl => ?_, fun _ _ => trivial⟩
  rw [joining_realms] at hl
  cases hl

theorem runs_joined : Runs sharing.ourId joining.ourId (stage joining ["RequestRealmIDs"] [])
    (stage joined [] []) := by
  have h₁ : (stage joining ["RequestRealmIDs"] []).Calm :=
    calm_stage (by rintro _ ⟨⟩; exact ⟨_, .requestRealmIds, rfl⟩) (by rintro _ ⟨⟩)
  have s₁ : Step sharing.ourId joining.ourId (stage joining ["RequestRealmIDs"] [])
      (stage joining [] ["AvailableRealmIDs"]) :=
    step_sharing ["AvailableRealmIDs"] .requestRealmIds rfl (by decide +kernel)
  have h₂ : (stage joining [] ["AvailableRealmIDs"]).Calm := by
    refine calm_stage (by rintro _ ⟨⟩) ?_
    rintro _ ⟨⟩
    refine ⟨_, .availableRealmIds, ?_, fun _ hf => by cases hf⟩
    rw [joining_replies]
    simp only [List.forall_mem_cons]
    exact ⟨⟨_, .requestFlos⟩, ⟨_, .requestFloMetas⟩, fun _ hm => absurd hm List.not_mem_nil⟩
  have s₂ : Step sharing.ourId joining.ourId (stage joining [] ["AvailableRealmIDs"])
      (stage joining ["RequestFlos", "RequestFloMetas"] []) :=
    step_joining ["RequestFlos", "RequestFloMetas"] .availableRealmIds (fun _ hf => by cases hf)
      (by decide +kernel)
  have h₃ : (stage joining ["RequestFlos", "RequestFloMetas"] []).Calm :=
    calm_stage (by rintro _ ⟨⟩; exact ⟨_, .requestFlos, rfl⟩) (by rintro _ ⟨⟩)
  have s₃ : Step sharing.ourId joining.ourId
      (stage joining ["RequestFlos", "RequestFloMetas"] [])
      (stage joining ["RequestFloMetas"] ["Flos"]) :=
    step_sharing ["Flos"] .requestFlos rfl (by decide +kernel)
  have hflos : ∀ name ∈ ["Flos"].head?, ∃ msg, Shared name msg ∧
      (∀ ans ∈ joining.replies msg, ∃ name, Shared name ans) ∧
      ∀ fcs, msg = .flos fcs → ∀ env, joining.RoomFor env fcs := by
    rintro _ ⟨⟩
    refine ⟨_, .flos, fun _ hm => absurd hm List.not_mem_nil, fun _ hf => ?_⟩
    cases hf
    exact joining_room
  have h₄ : (stage joining ["RequestFloMetas"] ["Flos"]).Calm :=
    calm_stage (by rintro _ ⟨⟩; exact ⟨_, .requestFloMetas, rfl⟩) hflos
  have s₄ : Step sharing.ourId joining.ourId (stage joining ["RequestFloMetas"] ["Flos"])
      (stage joining [] ["Flos", "AvailableFlos"]) :=
    step_sharing ["AvailableFlos"] .requestFloMetas rfl (by decide +kernel)
  have h₅ : (stage joining [] ["Flos", "AvailableFlos"]).Calm :=
    calm_stage (by rintro _ ⟨⟩) hflos
  have s₅ : Step sharing.ourId joining.ourId (stage joining [] ["Flos", "AvailableFlos"])
      (stage joined [] ["AvailableFlos"]) := by
    have hm : joining.message sharedEnv
        (.routing (.messageNeighbour sharing.ourId (wrapper "Flos"))) = some (joined, []) := by
      simp only [Messages.message, Messages.msgDhtRouter, Shared.flos.read, Messages.msgNeighbour,
        storeFloCuckoos_joined, Option.map_some]
    exact .deliverB rfl hm
  have h₆ : (stage joined [] ["AvailableFlos"]).Calm := by
    refine calm_stage (by rintro _ ⟨⟩) ?_
    rintro _ ⟨⟩
    refine ⟨_, .availableFlos, ?_, fun _ hf => by cases hf⟩
    rw [joined_replies]
    exact fun _ hm => absurd hm List.not_mem_nil
  have s₆ : Step sharing.ourId joining.ourId (stage joined [] ["AvailableFlos"])
      (stage joined [] []) :=
    step_joining [] .availableFlos (fun _ hf => by cases hf) (by decide +kernel)
  exact .head ⟨h₁, s₁⟩ <| .head ⟨h₂, s₂⟩ <| .head ⟨h₃, s₃⟩ <| .head ⟨h₄, s₄⟩ <|
    .head ⟨h₅, s₅⟩ <| .head ⟨h₆, s₆⟩ .refl

theorem synced_joined : ∃ b₀ out,
    joining.message sharedEnv (.storage .syncFromNeighbors) = some (b₀, out) ∧
    Runs sharing.ourId joining.ourId ⟨sharing, b₀, sentTo sharing.ourId out, []⟩
      ⟨sharing, joined, [], []⟩ ∧
    ∀ rid s id fs, sharing.realms.lookup rid = some s → joining.config.acceptsRealm rid = true →
      s.flos.lookup id = some fs → joined.Holds rid id fs.version := by
  have hrun := runs_joined
  have hs : joining.message sharedEnv (.storage .syncFromNeighbors) =
      some (joining, [.routing (.messageBroadcast (wrapper "RequestRealmIDs"))]) := rfl
  refine ⟨_, _, hs, hrun, synced sharing_reachable joining_reachable ?_
    Shared.requestRealmIds.lossless hs hrun⟩
  intro rid s hl
  have ⟨hr, hs⟩ := sharing_lookup.mp hl
  exact ⟨_, hs ▸ hr ▸ sharedStorage_lookup, sharedRealm, rfl⟩

end Sync
