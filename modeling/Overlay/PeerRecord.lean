import Overlay.Payload.Codec

/-!
# Records of peers

What is kept of a peer between runs of a node.
-/

namespace Overlay

structure PeerRecord where
  endpoint : Endpoint
  lastSeen : Int64
  deriving DecidableEq

namespace PeerRecord

def encode (record : PeerRecord) : Bytes :=
  Payload.encodeEndpoint record.endpoint ++ Payload.encodeInt64 record.lastSeen

def decode : Payload.Decoder PeerRecord :=
  Payload.decodeEndpoint.andThen fun endpoint =>
    Payload.decodeInt64.map fun lastSeen => ⟨endpoint, lastSeen⟩

end PeerRecord

end Overlay
