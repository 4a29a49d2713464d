import Overlay.Crypto.KeyPair
import Overlay.Identity
import Overlay.Protocol
import Overlay.Wire.Split

/-!
# Handshakes

Each side proves that it holds its key by signing what it claims about itself.
The dialing side speaks first; the accepting side answers only a claim that it
has verified and admitted.
-/

namespace Overlay

/-- The largest payload of a handshake. -/
def maxHandshakeLength : Nat := 4096

structure Claim where
  publicKey : Bytes
  port : UInt16
  version : UInt32
  timestamp : Int64
  deriving DecidableEq

namespace Claim

/-- The payload of a claim, which is what is signed. -/
def encode (claim : Claim) : Bytes :=
  Payload.encodeBytes claim.publicKey ++ Payload.encodeUInt16 claim.port ++
    Payload.encodeUInt32 claim.version ++ Payload.encodeInt64 claim.timestamp

def decode : Payload.Decoder Claim :=
  Payload.decodeBytes.andThen fun publicKey =>
    Payload.decodeUInt16.andThen fun port =>
      Payload.decodeUInt32.andThen fun version =>
        Payload.decodeInt64.map fun timestamp => ⟨publicKey, port, version, timestamp⟩

/-- The identity that is claimed. -/
def identity (claim : Claim) : Identity :=
  ⟨claim.publicKey, claim.port, claim.version⟩

end Claim

structure Handshake where
  claim : Claim
  signature : Bytes
  deriving DecidableEq

namespace Handshake

def encode (handshake : Handshake) : Bytes :=
  handshake.claim.encode ++ Payload.encodeBytes handshake.signature

def decode : Payload.Decoder Handshake :=
  Claim.decode.andThen fun claim => Payload.decodeBytes.map fun signature => ⟨claim, signature⟩

def toMessage (handshake : Handshake) : Wire.Message :=
  MessageKind.handshake.message (.ofBytes handshake.encode)

def ofMessage (message : Wire.Message) : Except NetError Handshake :=
  MessageKind.handshake.decode decode message

/-- Whether the claim was signed with its key. -/
def isSigned (handshake : Handshake) : Bool :=
  Crypto.Ecdsa.verify handshake.claim.publicKey handshake.signature handshake.claim.encode

/-- Sends a handshake. -/
def send (handshake : Handshake) (sink : Wire.Sink) : Wire.Sent :=
  Wire.sendFrames [.whole handshake.toMessage] sink

/-- Receives a handshake, which is one whole frame. -/
def receive (source : Wire.Source) : Except NetError Handshake × Wire.Source :=
  match Wire.Frame.read source with
  | (.error e, source) => (.error e, source)
  | (.ok (.whole message), source) =>
    if message.payload.size ≤ maxHandshakeLength then (ofMessage message, source)
    else (.error (.protocol (.handshakeTooLarge message.payload.size)), source)
  | (.ok (.chunk _), source) => (.error (.protocol .handshakeChunked), source)

end Handshake

/-- What a node needs for its handshakes. -/
structure Handshaker where
  key : Crypto.KeyPair
  port : UInt16
  version : UInt32 := protocolVersion

/-- The outcome of one side of a handshake: whom it met, whom it asked to admit, what it sent, and
the incoming stream afterwards. -/
structure Meeting where
  result : Except NetError Identity
  consulted : Option Identity := none
  sent : Bytes := []
  source : Wire.Source

namespace Handshaker

/-- The handshake of a node at a time. -/
def build (self : Handshaker) (timestamp : Int64) : Handshake :=
  let claim : Claim := ⟨self.key.publicKey, self.port, self.version, timestamp⟩
  ⟨claim, self.key.sign claim.encode⟩

/-- Checks the handshake of another node. -/
def verify (self : Handshaker) (handshake : Handshake) : Except NetError Identity :=
  let claim := handshake.claim
  if claim.publicKey = self.key.publicKey then .error (.handshake .ownKey)
  else if claim.version ≠ self.version then
    .error (.handshake (.versionMismatch claim.version.toNat self.version.toNat))
  else if !handshake.isSigned then .error (.handshake .invalidSignature)
  else .ok claim.identity

/-- Receives the handshake of another node and checks it. -/
def receive (self : Handshaker) (source : Wire.Source) :
    Except NetError Identity × Wire.Source :=
  match Handshake.receive source with
  | (.error e, source) => (.error e, source)
  | (.ok handshake, source) => (self.verify handshake, source)

/-- The dialing side. -/
def initiate (self : Handshaker) (timestamp : Int64) (source : Wire.Source) (sink : Wire.Sink) :
    Meeting :=
  let sent := (self.build timestamp).send sink
  match sent.result with
  | .error e => { result := .error e, sent := sent.taken, source }
  | .ok () =>
    let (result, source) := self.receive source
    { result, sent := sent.taken, source }

/-- The accepting side, which answers whom `admission` lets in. -/
def respond (self : Handshaker) (admission : Identity → Except NetError Unit) (timestamp : Int64)
    (source : Wire.Source) (sink : Wire.Sink) : Meeting :=
  match self.receive source with
  | (.error e, source) => { result := .error e, source }
  | (.ok identity, source) =>
    match admission identity with
    | .error e => { result := .error e, consulted := some identity, source }
    | .ok () =>
      let sent := (self.build timestamp).send sink
      { result := sent.result.map fun () => identity
        consulted := some identity
        sent := sent.taken
        source }

end Handshaker

end Overlay
