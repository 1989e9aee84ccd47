import Fledger.Network.Signal

-- Simple stand-ins for `serde_json` and the cryptographic crate, by which the model can be evaluated.

namespace Json

def quoted (s : String) : String :=
  "\"" ++ s ++ "\""

def object (fields : List (String × String)) : String :=
  "\x7b" ++ ",".intercalate (fields.map fun (name, value) => quoted name ++ ":" ++ value) ++ "\x7d"

def hexString (bs : Bytes) : String :=
  quoted <| String.ofList <| (hex bs).map fun b => Char.ofNat b.toNat

-- With all modules.
def nodeInfo (info : NodeInfoV3) : String :=
  object [("NodeInfoV3", object [("name", quoted info.name), ("client", quoted info.client),
    ("pubkey", hexString info.pubkey), ("modules", quoted <| "STAT | RAND | GOSSIP | PING | " ++
      "WEBPROXY | WEBPROXY_REQUESTS | DHT_ROUTER | DHT_STORAGE")])]

def announce (ann : MessageAnnounce NodeInfoV3) : String :=
  object [("Announce", object [("version", toString ann.version),
    ("challenge", hexString ann.challenge.bytes), ("node_info", nodeInfo ann.nodeInfo),
    ("signature", hexString ann.signature)])]

-- Without a system realm.
def messageToNode : WSSignalMessageToNode → Option String
  | .challenge version challenge =>
    object [("Challenge", "[" ++ toString version ++ "," ++ hexString challenge.bytes ++ "]")]
  | .systemConfig _ => object [("SystemConfig", object [("system_realm", "null")])]
  | _               => none

def peerMessage : PeerMessage → String
  | .init                   => quoted "Init"
  | .offer sdp              => object [("Offer", quoted sdp)]
  | .answer sdp             => object [("Answer", quoted sdp)]
  | .iceCandidate candidate => object [("IceCandidate", quoted candidate)]

def peerSetup (pi : PeerInfo) : String :=
  object [("PeerSetup", object [("id_init", hexString pi.idInit.bytes),
    ("id_follow", hexString pi.idFollow.bytes), ("message", peerMessage pi.message)])]

end Json

-- The texts of some announcements can be read.
abbrev SignalJson.announcing (anns : List (MessageAnnounce NodeInfoV3)) : SignalJson where
  toString     := Json.messageToNode
  fromStr text := (anns.find? (Json.announce · = text)).map fun ann =>
    .announce { ann with nodeInfo := .v3 ann.nodeInfo }
  met text     := (anns.find? (Json.announce · = text)).map fun ann => .v3 ann.nodeInfo

-- The messages for other nodes can be read and written, too.
abbrev SignalJson.relaying (anns : List (MessageAnnounce NodeInfoV3)) (setups : List PeerInfo) :
    SignalJson where
  toString
    | .peerSetup pi => some (Json.peerSetup pi)
    | msg           => Json.messageToNode msg
  fromStr text :=
    ((announcing anns).fromStr text).or <|
      (setups.find? (Json.peerSetup · = text)).map .peerSetup
  met          := (announcing anns).met

-- The signature contains the key and the message.
abbrev Ed25519Compact.plain : Ed25519Compact where
  verify key msg sig := sig == (key ++ msg ++ List.replicate 64 0).take 64

namespace SignalServer

def sampleConfig : SignalConfig where
  ttlMinutes  := 2
  systemRealm := none
  maxListLen  := none

def sampleEnv : SignalEnv where
  rnd                          := .ofPrefix [3]
  chooseMultiple _ infos count := infos.take count

-- The announcement by the owner of the key, with a signature of a message.
def sampleAnnounce (name : String) (key : U256) (msg : U256) : MessageAnnounce NodeInfoV3 where
  version   := signalVersion
  challenge := sampleEnv.rnd
  nodeInfo  := { name, client := "libc", pubkey := key.bytes, modules := Modules.all }
  signature := key.bytes ++ msg.bytes

variable [SignalJson] [Ed25519Compact]

def next (s : SignalServer) (input : SignalIn) : SignalServer × List SignalOut :=
  (s.msgIn sampleEnv input).getD (s, [])

theorem msgIn_next {s : SignalServer} {input : SignalIn}
    (h : (s.msgIn sampleEnv input).isSome = true) :
    s.msgIn sampleEnv input = some ((s.next input).1, (s.next input).2) := by
  have ⟨_, h⟩ := Option.isSome_iff_exists.mp h
  rw [next, h, Option.getD_some]

end SignalServer
