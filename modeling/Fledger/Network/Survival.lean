import Fledger.Network.Challenge

-- A node info of the first version has no key.
def NodeInfoVersion.pubkey : NodeInfoVersion → Bytes
  | .v1        => []
  | .v2 old    => old.pubkey
  | .v3 latest => latest.pubkey

theorem NodeInfo.isSome_fromVersion {version : NodeInfoVersion} :
    (fromVersion version).isSome ↔ version ≠ .v1 := by
  cases version <;> simp [fromVersion]

theorem NodeInfo.pubkey_of_fromVersion {version : NodeInfoVersion} {info : NodeInfo}
    (h : fromVersion version = some info) : info.pubkey = version.pubkey := by
  cases version <;> cases h <;> rfl

theorem NodeInfo.isSome_verify [Ed25519Compact] {info : NodeInfo} (msg sigBytes : Bytes) :
    (info.verify msg sigBytes).isSome ↔ info.pubkey.length = 32 := by
  unfold verify
  split
  case isTrue h  => simpa using h
  case isFalse h => split <;> simpa using h

theorem isSome_mapM {A B : Type*} {f : A → Option B} {o : Option A} :
    (o.mapM f).isSome ↔ ∀ a, o = some a → (f a).isSome := by
  cases o
  case none   => simp
  case some a => cases hf : f a <;> simp [hf]

theorem WSSignalMessageFromNode.isSome_convert {msg : WSSignalMessageFromNode NodeInfoVersion} :
    msg.convert.isSome ↔ ∀ ann, msg = .announce ann → ann.nodeInfo ≠ .v1 := by
  cases msg
  case announce ann =>
    cases hv : NodeInfo.fromVersion ann.nodeInfo <;>
      simp [convert, hv, ← NodeInfo.isSome_fromVersion]
  all_goals simp [convert]

namespace SignalServer

section

variable [SignalJson] [Ed25519Compact] {s s' : SignalServer} {env : SignalEnv} {index : Nat}
  {text : String} {ann : MessageAnnounce NodeInfo} {out : List SignalOut}

-- The text is no message, or an announcement without a signature of what is kept for the
-- connection.
def Rejected (s : SignalServer) (index : Nat) (text : String) : Prop :=
  WSSignalMessageFromNode.fromJson text = some none ∨
    ∃ ann, WSSignalMessageFromNode.fromJson text = some (some (.announce ann)) ∧
      ∀ id, s.entry index = some id → ann.nodeInfo.verify id.bytes ann.signature ≠ some true

-- The server does not panic on the text, and if it rejects the text then nothing comes of it.
def Survives (s : SignalServer) (env : SignalEnv) (index : Nat) (text : String) : Prop :=
  ∃ s' out, s.msgIn env (.wsServer (.message index text)) = some (s', out) ∧
    (Rejected s index text → s'.connectionIds = s.connectionIds ∧ s'.info = s.info ∧ out = [])

-- No node info of the first version is met in the text, and an announcement on a known connection
-- has a key of the right length.
structure Bearable (s : SignalServer) (index : Nat) (text : String) : Prop where
  met      : SignalJson.met text ≠ some .v1
  announce : ∀ ann, SignalJson.fromStr text = some (.announce ann) → ann.nodeInfo ≠ .v1 ∧
    (s.entry index = none ∨ ann.nodeInfo.pubkey.length = 32)

-- All messages to the nodes can be written.
def Writes : Prop :=
  ∀ msg, (SignalJson.toString msg).isSome

omit [Ed25519Compact] in
theorem isSome_sendMsgNode (hw : Writes) (index : Nat) (msg : WSSignalMessageToNode) :
    (sendMsgNode index msg).isSome := by
  have ⟨text, ht⟩ := Option.isSome_iff_exists.mp (hw msg)
  simp [sendMsgNode, ht]

omit [Ed25519Compact] in
theorem isSome_wsPeerSetup (hw : Writes) (s : SignalServer) (index : Nat) (pi : PeerInfo) :
    (s.wsPeerSetup index pi).isSome := by
  unfold wsPeerSetup
  split
  case h_1 => rfl
  case h_2 =>
    split
    case h_1 => exact isSome_sendMsgNode hw ..
    case h_2 => rfl

-- Without an id, which is never read, the length of the key decides.
theorem isSome_wsAnnounce (hw : Writes) (hi : ann.nodeInfo.id = none) :
    (s.wsAnnounce index ann).isSome ↔
      s.entry index = none ∨ ann.nodeInfo.pubkey.length = 32 := by
  cases he : s.entry index <;> rw [entry] at he <;> simp only [wsAnnounce, he]
  case none => simp
  case some id =>
    by_cases hl : ann.nodeInfo.pubkey.length = 32
    case neg => simp [NodeInfo.verify, hl]
    case pos =>
      have hid : ann.nodeInfo.getId = some ⟨ann.nodeInfo.pubkey, hl⟩ := by
        simp [NodeInfo.getId, hi, hl]
      obtain ⟨verified, hv⟩ := Option.isSome_iff_exists.mp <|
        NodeInfo.isSome_verify id.bytes ann.signature |>.mpr hl
      obtain ⟨msgs, hm⟩ := Option.isSome_iff_exists.mp <|
        isSome_sendMsgNode hw index (.systemConfig { systemRealm := s.config.systemRealm })
      cases verified <;> simp [hv, hid, hm, hl]

theorem wsAnnounce_of_not_verified (h : s.wsAnnounce index ann = some (s', out))
    (hn : ∀ id, s.entry index = some id → ann.nodeInfo.verify id.bytes ann.signature ≠ some true) :
    s' = s ∧ out = [] := by
  unfold wsAnnounce at h
  split at h
  case h_1 => cases h; exact ⟨rfl, rfl⟩
  case h_2 id he =>
    simp only [Option.bind_eq_bind, Option.bind_eq_some_iff] at h
    obtain ⟨verified, hv, h⟩ := h
    cases verified
    case false => cases h; exact ⟨rfl, rfl⟩
    case true  => exact absurd hv (hn id he)

omit [Ed25519Compact] in
theorem isSome_fromJson : (WSSignalMessageFromNode.fromJson text).isSome ↔
    SignalJson.met text ≠ some .v1 ∧
      ∀ ann, SignalJson.fromStr text = some (.announce ann) → ann.nodeInfo ≠ .v1 := by
  have hmet : ((SignalJson.met text).mapM NodeInfo.fromVersion).isSome ↔
      SignalJson.met text ≠ some .v1 := by
    rw [isSome_mapM]
    simp only [NodeInfo.isSome_fromVersion]
    exact ⟨fun h he => h _ he rfl, fun h _ he hv => h (hv ▸ he)⟩
  have hstr : ((SignalJson.fromStr text).mapM WSSignalMessageFromNode.convert).isSome ↔
      ∀ ann, SignalJson.fromStr text = some (.announce ann) → ann.nodeInfo ≠ .v1 := by
    rw [isSome_mapM]
    simp only [WSSignalMessageFromNode.isSome_convert]
    exact ⟨fun h ann he => h _ he ann rfl, fun h _ he ann hm => h ann (hm ▸ he)⟩
  rw [← hmet, ← hstr]
  unfold WSSignalMessageFromNode.fromJson
  cases (SignalJson.met text).mapM NodeInfo.fromVersion <;> simp

omit [Ed25519Compact] in
theorem announce_of_fromStr {ann : MessageAnnounce NodeInfoVersion}
    {msg : Option (WSSignalMessageFromNode NodeInfo)}
    (h : WSSignalMessageFromNode.fromJson text = some msg)
    (ha : SignalJson.fromStr text = some (.announce ann)) :
    ∃ info, NodeInfo.fromVersion ann.nodeInfo = some info ∧
      msg = some (.announce { ann with nodeInfo := info }) := by
  simp only [WSSignalMessageFromNode.fromJson, Option.bind_eq_bind, Option.bind_eq_some_iff] at h
  obtain ⟨_, _, h⟩ := h
  cases hv : NodeInfo.fromVersion ann.nodeInfo <;>
    simp [ha, WSSignalMessageFromNode.convert, hv] at h
  case some info => exact ⟨info, rfl, h.symm⟩

-- The server panics on the texts which are not bearable, and only on them.
theorem isSome_message (hw : Writes) (env : SignalEnv) :
    (s.msgIn env (.wsServer (.message index text))).isSome ↔ Bearable s index text := by
  let t : SignalServer := { s with ttl := HashMap.modify s.ttl index fun _ => s.config.ttlMinutes }
  have hread {msg} (hj : WSSignalMessageFromNode.fromJson text = some msg) :
      s.msgIn env (.wsServer (.message index text)) =
        match msg with
        | some msg => t.msgWsProcess env index msg
        | none     => some (t, []) := by
    cases msg <;> simp [msgIn, msgWss, hj, t]
  constructor
  case mp =>
    intro h
    have hj : (WSSignalMessageFromNode.fromJson text).isSome := by
      by_contra hn
      have hn := Option.not_isSome_iff_eq_none.mp hn
      simp [msgIn, msgWss, hn] at h
    obtain ⟨hmet, hver⟩ := isSome_fromJson.mp hj
    obtain ⟨msg, hm⟩ := Option.isSome_iff_exists.mp hj
    refine ⟨hmet, fun ann ha => ⟨hver ann ha, ?_⟩⟩
    obtain ⟨info, hi, rfl⟩ := announce_of_fromStr hm ha
    rw [hread hm] at h
    have hl := isSome_wsAnnounce hw (NodeInfo.id_of_fromVersion hi) |>.mp h
    rwa [NodeInfo.pubkey_of_fromVersion hi] at hl
  case mpr =>
    intro hb
    obtain ⟨msg, hm⟩ := Option.isSome_iff_exists.mp <|
      isSome_fromJson.mpr ⟨hb.met, fun ann ha => (hb.announce ann ha).left⟩
    rw [hread hm]
    cases msg
    case none => rfl
    case some msg =>
      cases msg
      case nodeStats      => rfl
      case listIdsRequest => exact Option.isSome_map.trans <| isSome_sendMsgNode hw ..
      case peerSetup pi   => exact Option.isSome_map.trans <| isSome_wsPeerSetup hw ..
      case announce ann   =>
        obtain ⟨ann', ha, hv⟩ := fromStr_of_fromJson hm
        apply isSome_wsAnnounce hw (NodeInfo.id_of_fromVersion hv) |>.mpr
        rw [NodeInfo.pubkey_of_fromVersion hv]
        exact (hb.announce ann' ha).right

-- Nothing comes of a text which is rejected.
theorem eq_of_rejected (hr : Rejected s index text)
    (h : s.msgIn env (.wsServer (.message index text)) = some (s', out)) :
    s'.connectionIds = s.connectionIds ∧ s'.info = s.info ∧ out = [] := by
  rcases hr with hj | ⟨ann, hj, hn⟩ <;>
    simp only [msgIn, msgWss, hj, Option.bind_eq_bind, Option.bind_some] at h
  · cases h
    exact ⟨rfl, rfl, rfl⟩
  · obtain ⟨rfl, rfl⟩ := wsAnnounce_of_not_verified h hn
    exact ⟨rfl, rfl, rfl⟩

theorem survives_iff (hw : Writes) (s : SignalServer) (env : SignalEnv) (index : Nat)
    (text : String) : Survives s env index text ↔ Bearable s index text := by
  rw [← isSome_message hw env]
  constructor
  case mp  => exact fun ⟨s', out, hm, _⟩ => hm ▸ rfl
  case mpr =>
    intro hs
    have ⟨(s', out), hm⟩ := Option.isSome_iff_exists.mp hs
    exact ⟨s', out, hm, fun hr => eq_of_rejected hr hm⟩

end

-- An announcement whose key is one byte too short.
def announceShort : MessageAnnounce NodeInfoV3 :=
  { announceFirst with
    nodeInfo := { announceFirst.nodeInfo with pubkey := announceFirst.nodeInfo.pubkey.drop 1 } }

-- All messages are written, those which the sample server does not send as the empty text.
abbrev writing : SignalJson :=
  { SignalJson.announcing [announceFirst, announceShort] with
    toString := fun msg => some <| (Json.messageToNode msg).getD "" }

attribute [local instance] writing Ed25519Compact.plain

def awaiting : SignalServer :=
  ((new sampleConfig).next connect).1

theorem bearable_announceFirst : Bearable awaiting 0 (Json.announce announceFirst) where
  met             := by
    have hm : SignalJson.met (Json.announce announceFirst) = some (.v3 announceFirst.nodeInfo) := by
      simp [SignalJson.met]
    simp [hm]
  announce ann ha := by
    have hf : SignalJson.fromStr (Json.announce announceFirst) =
        some (.announce { announceFirst with nodeInfo := .v3 announceFirst.nodeInfo }) := by
      simp [SignalJson.fromStr]
    cases hf.symm.trans ha
    exact ⟨by simp, .inr rfl⟩

theorem announceFirst_survived : Survives awaiting sampleEnv 0 (Json.announce announceFirst) :=
  survives_iff (fun _ => rfl) .. |>.mpr bearable_announceFirst

theorem announceShort_not_survived :
    (∃ h, Runs sampleConfig (fun _ _ _ => True) h awaiting) ∧
      ¬Survives awaiting sampleEnv 0 (Json.announce announceShort) := by
  constructor
  case left => exact ⟨_, .step .new trivial <| msgIn_next (by decide +kernel)⟩
  case right =>
    intro ⟨s', out, h, _⟩
    have hn : (awaiting.msgIn sampleEnv
        (.wsServer (.message 0 (Json.announce announceShort)))).isSome = false := by
      decide +kernel
    rw [h] at hn
    cases hn

end SignalServer
