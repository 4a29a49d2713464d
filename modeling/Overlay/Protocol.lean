import Overlay.Payload.Codec
import Overlay.Wire.Frame

/-!
# Messages between nodes

The kinds of messages with their type numbers, and the payloads of those that
nodes exchange on their own account.
-/

namespace Overlay

/-- The protocol version of this node. -/
def protocolVersion : UInt32 := 1

/-- The kinds of messages that nodes know. -/
inductive MessageKind
  | handshake
  | requestPeers
  | returnPeers
  | block
  | transaction
  | announcement
  | disconnect
  deriving DecidableEq, Repr

namespace MessageKind

def tag : MessageKind → UInt8
  | .handshake => 0
  | .requestPeers => 1
  | .returnPeers => 2
  | .block => 3
  | .transaction => 4
  | .announcement => 5
  | .disconnect => 6

/-- The kind of a type number. -/
def ofTag? (tag : UInt8) : Option MessageKind :=
  match tag.toNat with
  | 0 => some .handshake
  | 1 => some .requestPeers
  | 2 => some .returnPeers
  | 3 => some .block
  | 4 => some .transaction
  | 5 => some .announcement
  | 6 => some .disconnect
  | _ => none

def name : MessageKind → String
  | .handshake => "Handshake"
  | .requestPeers => "RequestPeers"
  | .returnPeers => "ReturnPeers"
  | .block => "Block"
  | .transaction => "Transaction"
  | .announcement => "Announcement"
  | .disconnect => "Disconnect"

def message (kind : MessageKind) (payload : Payload) : Wire.Message :=
  ⟨kind.tag, payload⟩

/-- Reads the payload of a message that has to be of a kind. -/
def decode {α : Type} (kind : MessageKind) (decode : Payload.Decoder α) (message : Wire.Message) :
    Except NetError α :=
  if message.tag = kind.tag then Payload.deserialize decode message.payload.bytes
  else .error (.protocol (.unexpectedTag kind.name message.tag.toNat))

end MessageKind

/-- The last message on a connection. -/
def disconnectMessage : Wire.Message :=
  MessageKind.disconnect.message ByteArray.empty

/-- A request for the endpoints of other nodes. -/
structure PeerRequest where
  count : UInt16
  deriving DecidableEq, Repr

namespace PeerRequest

/-- The request for a number of endpoints, or for as many as can be asked for. -/
def ofCount (count : Nat) : PeerRequest :=
  ⟨UInt16.ofNat (min count 65535)⟩

def encode (request : PeerRequest) : Bytes :=
  Payload.encodeUInt16 request.count

def decode : Payload.Decoder PeerRequest :=
  Payload.decodeUInt16.map fun count => ⟨count⟩

def toMessage (request : PeerRequest) : Wire.Message :=
  MessageKind.requestPeers.message (.ofBytes request.encode)

def ofMessage (message : Wire.Message) : Except NetError PeerRequest :=
  MessageKind.requestPeers.decode decode message

end PeerRequest

/-- The answer to a request: endpoints of other nodes. -/
structure PeerList where
  peers : List Endpoint
  deriving DecidableEq, Repr

namespace PeerList

def encode (list : PeerList) : Bytes :=
  Payload.encodeList Payload.encodeEndpoint list.peers

def decode : Payload.Decoder PeerList :=
  (Payload.decodeList Payload.decodeEndpoint).map fun peers => ⟨peers⟩

def toMessage (list : PeerList) : Wire.Message :=
  MessageKind.returnPeers.message (.ofBytes list.encode)

def ofMessage (message : Wire.Message) : Except NetError PeerList :=
  MessageKind.returnPeers.decode decode message

end PeerList

end Overlay
