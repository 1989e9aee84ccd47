import Fledger.DhtStorage.Growth

namespace MessageNeighbour

-- What asks for something, as opposed to what offers or hands over something.
def isRequest : MessageNeighbour → Bool
  | requestRealmIds | requestFloMetas _ | requestFlos _ _ => true
  | _                                                     => false

variable [Yaml MessageNeighbour]

-- The messages in a channel.
def received (channel : List NetworkWrapper) : List MessageNeighbour :=
  channel.filterMap (·.unwrapYaml MessageNeighbour dhtStorageName)

-- The first message in a channel.
def Next (channel : List NetworkWrapper) (msg : MessageNeighbour) : Prop :=
  ∃ w, channel.head? = some w ∧ w.unwrapYaml MessageNeighbour dhtStorageName = some msg

theorem received_append (c₁ c₂ : List NetworkWrapper) :
    received (c₁ ++ c₂) = received c₁ ++ received c₂ :=
  List.filterMap_append

end MessageNeighbour

-- What reaches a connected node.
def sentTo (dst : NodeID) (out : List InternOut) : List NetworkWrapper :=
  out.filterMap fun
    | .routing (.messageNeighbour d w) => if d = dst then some w else none
    | .routing (.messageBroadcast w)   => some w
    | _                                => none

open MessageNeighbour in
theorem received_sentTo [Yaml MessageNeighbour] {dst : NodeID} {msgs : List MessageNeighbour}
    (h : ∀ msg ∈ msgs.filter isSent, Yaml.Lossless msg) :
    received (sentTo dst (msgs.filterMap (·.toNeighbour dst))) = msgs.filter isSent := by
  induction msgs
  case nil => rfl
  case cons msg msgs hi =>
    cases hs : msg.isSent
    case false =>
      have hn : msg.toNeighbour dst = none := by simp [toNeighbour, hs]
      rw [List.filter_cons_of_neg (by simp [hs])] at h ⊢
      simp only [List.filterMap_cons, hn]
      exact hi h
    case true =>
      rw [List.filter_cons_of_pos hs] at h ⊢
      have ⟨w, hw, hu⟩ := NetworkWrapper.wrapYaml_of_lossless (h msg List.mem_cons_self) dhtStorageName
      have hn : msg.toNeighbour dst = some (.routing (.messageNeighbour dst w)) := by
        simp [toNeighbour, hs, hw]
      simp only [List.filterMap_cons, hn]
      rw [← hi fun msg hm => h msg (List.mem_cons_of_mem _ hm)]
      simp [sentTo, received, hu]

namespace Messages

variable [Sha256]

theorem isRequest_answer {m : Messages} {env : Env} {msg ans : MessageNeighbour}
    (h : ans ∈ m.answer env msg) : ans.isRequest = !msg.isRequest := by
  cases msg <;> simp only [answer] at h
  case requestRealmIds => cases List.mem_singleton.mp h; rfl
  case availableRealmIds =>
    rcases List.mem_append.mp h with h | h
    all_goals
      have ⟨_, _, h⟩ := List.mem_map.mp h
      cases h
      rfl
  case availableFlos =>
    split at h
    case h_1 => cases List.mem_singleton.mp h; rfl
    case h_2 => cases h
  case flos => cases h
  all_goals
    split at h <;> [split at h; cases h]
    case h_1 => cases List.mem_singleton.mp h; rfl
    case h_2 => cases h

-- Apart from the switch, the answer does not depend on the surroundings.
theorem answer_congr {m : Messages} {env env' : Env} (h : env.evilNoForward = env'.evilNoForward) :
    m.answer env = m.answer env' := by
  funext msg
  cases msg <;> simp only [answer, h]

-- What an honest node sends back.
def replies (m : Messages) (msg : MessageNeighbour) : List MessageNeighbour :=
  let env : Env := { fuel := 0, now := fun _ => 0, rnd := .zero, evilNoForward := false }
  (m.answer env msg).filter MessageNeighbour.isSent

-- The flo is stored at the node under its id, in a realm whose own flo can be handed over.
structure Offers [RealmReader] (m : Messages) (rid : RealmID) (s : RealmStorage) (flo : Flo) :
    Prop where
  lookup : m.realms.lookup rid = some s
  stored : ∃ fs, s.flos.lookup flo.floId = some fs ∧ fs.flo = flo
  realm  : flo.realm = rid
  opens  : ∃ fs, s.flos.lookup rid = some fs ∧ fs.flo.realm = rid ∧ Opens fs.flo

section Replies

variable {m : Messages} {rid : RealmID} {s : RealmStorage} {id : FloID} {fs : FloStorage}

theorem replies_requestRealmIds (hm : rid ∈ m.realms) :
    m.replies .requestRealmIds = [.availableRealmIds m.realms.keys] := by
  have hl : m.realms.keys ≠ [] := fun hk => by simp [AList.mem_keys, hk] at hm
  simp [replies, answer, MessageNeighbour.isSent, List.length_pos_iff, hl]

theorem replies_requestFloMetas (hl : m.realms.lookup rid = some s)
    (hf : s.flos.lookup id = some fs) :
    m.replies (.requestFloMetas rid) = [.availableFlos rid s.getFloMetas] := by
  have hm : s.getFloMetas ≠ [] := by
    have hv := HashMap.mem_values.mpr ⟨id, hf⟩
    simpa [RealmStorage.getFloMetas] using List.ne_nil_of_mem hv
  simp [replies, answer, hl, MessageNeighbour.isSent, List.length_pos_iff, hm]

theorem mem_replies_requestFlos {ids : List FloID} (hl : m.realms.lookup rid = some s)
    (hf : s.flos.lookup id = some fs) (hi : id ∈ ids) :
    ∃ fcs, .flos fcs ∈ m.replies (.requestFlos rid ids) ∧ (fs.flo, fs.cuckoos) ∈ fcs := by
  have hm : (fs.flo, fs.cuckoos) ∈ ids.filterMap s.getFloCuckoo :=
    List.mem_filterMap.mpr ⟨id, hi, by simp [RealmStorage.getFloCuckoo, hf]⟩
  refine ⟨_, ?_, hm⟩
  have hn := List.length_pos_of_mem hm
  simpa [replies, answer, hl, MessageNeighbour.isSent] using hn

-- What is missing, or stored in an older version, is asked for.
theorem mem_replies_availableFlos {metas : List FloMeta} {floMeta : FloMeta}
    (hl : m.realms.lookup rid = some s) (hm : floMeta ∈ metas)
    (hn : ¬m.Holds rid floMeta.id floMeta.version) :
    ∃ ids, m.replies (.availableFlos rid metas) = [.requestFlos rid ids] ∧ floMeta.id ∈ ids := by
  have hs : ∃ ids, s.syncAvailable metas = some ids ∧ floMeta.id ∈ ids := by
    unfold RealmStorage.syncAvailable
    dsimp only
    have hi : floMeta.id ∈ metas.filterMap fun remote =>
        if (s.flos.lookup remote.id).map (fun local' =>
            decide (local'.flo.version ≥ remote.version) &&
              decide (UInt32.ofNat local'.cuckoos.length ≥ remote.cuckoos)) ≠ some true then
          some remote.id
        else none := by
      refine List.mem_filterMap.mpr ⟨floMeta, hm, if_pos fun hh => hn ?_⟩
      have ⟨fs, hf, hv⟩ := Option.map_eq_some_iff.mp hh
      exact ⟨s, fs, hl, hf, of_decide_eq_true (Bool.and_eq_true_iff.mp hv).left⟩
    exact ⟨_, if_pos (List.length_pos_of_mem hi), hi⟩
  have ⟨ids, hs, hi⟩ := hs
  have hlen := List.length_pos_of_mem hi
  refine ⟨ids, ?_, hi⟩
  simp [replies, answer, hl, hs, MessageNeighbour.isSent, hlen]

theorem replies_availableRealmIds (m : Messages) (rids : List RealmID) :
    let accepted := rids.filter m.config.acceptsRealm
    m.replies (.availableRealmIds rids) =
      (accepted.filter (· ∉ m.realms)).map (fun rid => .requestFlos rid [rid]) ++
        accepted.map .requestFloMetas := by
  dsimp only
  rw [replies, answer, List.filter_eq_self]
  intro msg hm
  rcases List.mem_append.mp hm with hm | hm
  all_goals
    have ⟨_, _, hm⟩ := List.mem_map.mp hm
    cases hm
    rfl

end Replies

section Covered

variable [RealmReader]

-- The messages by which a realm can be opened.
def Opener (rid : RealmID) : MessageNeighbour → Prop
  | .flos fcs => ∃ fc ∈ fcs, fc.1.realm = rid ∧ Opens fc.1
  | _         => False

-- How far a flo of `a` is on its way to `b`, which still has to handle the messages.
inductive Covered (a b : Messages) (msgs : List MessageNeighbour) (rid : RealmID)
    (s : RealmStorage) (flo : Flo) : Prop
  | held (holds : b.Holds rid flo.floId flo.version)
  | sent {fcs cuckoos} (known : rid ∈ b.realms) (mem : .flos fcs ∈ msgs) (flo : (flo, cuckoos) ∈ fcs)
  | listed {msgs₁ msgs₂} (eq : msgs = msgs₁ ++ .availableFlos rid s.getFloMetas :: msgs₂)
    (known : rid ∈ b.realms ∨ ∃ msg ∈ msgs₁, Opener rid msg)
  | offered {rids} (mem : .availableRealmIds rids ∈ msgs) (rid : rid ∈ rids)

variable {a b : Messages} {msgs : List MessageNeighbour} {rid : RealmID}
  {s : RealmStorage} {flo : Flo}

theorem Covered.prepend (h : Covered a b msgs rid s flo) (msgs' : List MessageNeighbour) :
    Covered a b (msgs' ++ msgs) rid s flo := by
  cases h
  case held hh       => exact .held hh
  case sent hk hm hf => exact .sent hk (List.mem_append_right _ hm) hf
  case offered hm hr => exact .offered (List.mem_append_right _ hm) hr
  case listed msgs₁ msgs₂ he hk =>
    refine .listed (he ▸ (List.append_assoc ..).symm) ?_
    exact hk.imp_right fun ⟨msg, hm, ho⟩ => ⟨msg, List.mem_append_right _ hm, ho⟩

-- `b` learns that there is the realm.
theorem covered_of_offered (ho : a.Offers rid s flo) (ha : b.config.acceptsRealm rid = true)
    {rids : List RealmID} (hr : rid ∈ rids) :
    Covered a b ((b.replies (.availableRealmIds rids)).flatMap a.replies) rid s flo := by
  have ⟨fs, hf, _⟩ := ho.stored
  have hacc : rid ∈ rids.filter b.config.acceptsRealm := List.mem_filter.mpr ⟨hr, ha⟩
  have ⟨l₁, l₂, hl⟩ := List.append_of_mem hacc
  have hsplit : b.replies (.availableRealmIds rids) =
      ((l₁ ++ rid :: l₂).filter (· ∉ b.realms)).map (fun rid => .requestFlos rid [rid]) ++
        (l₁.map .requestFloMetas ++ .requestFloMetas rid :: l₂.map .requestFloMetas) := by
    rw [replies_availableRealmIds, hl, List.map_append, List.map_cons]
  rw [hsplit, List.flatMap_append, List.flatMap_append, List.flatMap_cons,
    replies_requestFloMetas ho.lookup hf, List.singleton_append, ← List.append_assoc]
  refine .listed rfl ?_
  by_cases hk : rid ∈ b.realms
  case pos => exact .inl hk
  case neg =>
    have ⟨fs₀, hf₀, hrealm, hopens⟩ := ho.opens
    have ⟨fcs, hm, hfc⟩ := mem_replies_requestFlos ho.lookup hf₀ (List.mem_singleton_self rid)
    refine .inr ⟨.flos fcs, List.mem_append_left _ ?_, _, hfc, hrealm, hopens⟩
    refine List.mem_flatMap.mpr ⟨_, List.mem_map.mpr ⟨rid, ?_, rfl⟩, hm⟩
    exact List.mem_filter.mpr ⟨hl ▸ hacc, decide_eq_true hk⟩

-- `b` compares what there is with what it has.
theorem covered_of_listed (ho : a.Offers rid s flo) (hk : rid ∈ b.realms) :
    Covered a b ((b.replies (.availableFlos rid s.getFloMetas)).flatMap a.replies) rid s flo := by
  obtain ⟨fs, hf, he⟩ := ho.stored
  obtain ⟨s', hl⟩ := HashMap.mem_iff_lookup.mp hk
  by_cases hh : b.Holds rid flo.floId flo.version
  case pos => exact .held hh
  case neg =>
    have hm : { id := flo.floId, version := flo.version, cuckoos := .ofNat fs.cuckoos.length } ∈
        s.getFloMetas := by
      refine List.mem_map.mpr ⟨fs, HashMap.mem_values.mpr ⟨_, hf⟩, ?_⟩
      rw [FloStorage.version, he]
    obtain ⟨ids, hr, hi⟩ := mem_replies_availableFlos hl hm hh
    obtain ⟨fcs, hm, hfc⟩ := mem_replies_requestFlos ho.lookup hf hi
    rw [hr, List.flatMap_singleton]
    exact .sent hk hm (he ▸ hfc)

end Covered

section Handled

variable [RealmReader] [Yaml (HashMap RealmID RealmStorage)] [Yaml MessageClosest]
  [Yaml MessageNeighbour] {m m' : Messages} {env : Env} {origin : NodeID} {msg : MessageNeighbour}
  {out : List InternOut} {a b b' : Messages} {msgs : List MessageNeighbour} {rid : RealmID}
  {s : RealmStorage} {flo : Flo}

theorem out_of_msgNeighbour (h : m.msgNeighbour env origin msg = some (m', out)) :
    out = (m.answer env msg).filterMap (·.toNeighbour origin) := by
  cases msg
  case flos =>
    have ⟨_, _, h⟩ := Option.map_eq_some_iff.mp h
    cases h
    rfl
  all_goals
    cases h
    rfl

theorem eq_of_msgNeighbour (h : m.msgNeighbour env origin msg = some (m', out))
    (hm : ∀ fcs, msg ≠ .flos fcs) : m' = m := by
  cases msg
  case flos fcs => exact absurd rfl (hm fcs)
  all_goals
    cases h
    rfl

theorem received_of_msgNeighbour {fcs : List FloCuckoo}
    (h : m.msgNeighbour env origin (.flos fcs) = some (m', out)) (hw : m.Wf)
    (hroom : m.RoomFor env fcs) : m.Received fcs m' := by
  have ⟨_, hs, h⟩ := Option.map_eq_some_iff.mp h
  cases h
  exact received_storeFloCuckoos hs hw hroom

theorem grows_of_msgNeighbour (h : m.msgNeighbour env origin msg = some (m', out)) (hw : m.Wf)
    (hroom : ∀ fcs, msg = .flos fcs → m.RoomFor env fcs) : m.Grows m' := by
  by_cases hm : ∃ fcs, msg = .flos fcs
  case neg => exact eq_of_msgNeighbour h (not_exists.mp hm) ▸ .refl m
  case pos =>
    have ⟨fcs, hf⟩ := hm
    exact (received_of_msgNeighbour (hf ▸ h) hw (hroom fcs hf)).grows

-- Every message brings the flo further on its way, or leaves it where it is.
theorem Covered.handle {env : Env} {origin : NodeID} {msg : MessageNeighbour}
    {out : List InternOut} (hc : Covered a b (msg :: msgs) rid s flo) (ho : a.Offers rid s flo)
    (ha : b.config.acceptsRealm rid = true) (hw : b.Wf)
    (hb : b.msgNeighbour env origin msg = some (b', out))
    (hroom : ∀ fcs, msg = .flos fcs → b.RoomFor env fcs) :
    Covered a b' (msgs ++ (b.replies msg).flatMap a.replies) rid s flo := by
  have hg := grows_of_msgNeighbour hb hw hroom
  cases hc
  case held hh => exact .held (hg.flos hh)
  case sent fcs cuckoos hk hm hf =>
    rcases List.mem_cons.mp hm with he | hm
    case inr => exact .sent (hg.realms hk) (List.mem_append_left _ hm) hf
    case inl =>
      have hr := received_of_msgNeighbour (he ▸ hb) hw (hroom fcs he.symm)
      exact .held (ho.realm ▸ hr.holds hf (ho.realm.symm ▸ hk))
  case offered rids hm hr =>
    rcases List.mem_cons.mp hm with he | hm
    case inr => exact .offered (List.mem_append_left _ hm) hr
    case inl =>
      cases he
      cases eq_of_msgNeighbour hb fun fcs hf => by cases hf
      exact (covered_of_offered ho ha hr).prepend msgs
  case listed msgs₁ msgs₂ he hk =>
    cases List.cons_eq_append_iff.mp he
    case inl hn =>
      cases hn.right
      cases eq_of_msgNeighbour hb fun fcs hf => by cases hf
      have hk := hk.resolve_right fun ⟨_, hm, _⟩ => by simp [hn.left] at hm
      exact (covered_of_listed ho hk).prepend _
    case inr hn =>
      have ⟨msgs₁', hm₁, hm⟩ := hn
      rw [hm, List.append_assoc, List.cons_append]
      refine .listed rfl ?_
      rcases hk with hk | ⟨opener, hm, hop⟩
      case inl => exact .inl (hg.realms hk)
      case inr =>
        rcases List.mem_cons.mp (hm₁ ▸ hm) with he | hm
        case inr => exact .inr ⟨opener, hm, hop⟩
        case inl =>
          -- The realm is opened by this very message.
          cases he
          cases msg
          case flos fcs =>
            have ⟨_, hfc, hrealm, hopens⟩ := hop
            have hr := received_of_msgNeighbour hb hw (hroom fcs rfl)
            exact .inl (hrealm ▸ hr.opens hfc hopens (hrealm.symm ▸ ha))
          all_goals exact absurd hop id

end Handled

end Messages
