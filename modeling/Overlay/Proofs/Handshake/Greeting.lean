import Overlay.Handshake
import Overlay.Proofs.Crypto.Keys
import Overlay.Proofs.Payload.RoundTrip
import Overlay.Proofs.Wire.Sending

/-!
# The handshake of a node

A handshake is decoded from its payload.  That of a node is much shorter than a
handshake may be, so a stream that lets all writes through takes all of it.
Another node believes it for its key, its version and its signature.
-/

namespace Overlay

open Wire

namespace Claim

theorem reads_encode {claim : Claim} (hkey : claim.publicKey.length < Bytes.span 8) :
    Claim.decode.Reads claim.encode claim := by
  rw [encode, List.append_assoc, List.append_assoc]
  refine (Payload.reads_encodeBytes hkey).andThen ?_
  refine (Payload.reads_encodeUInt16 claim.port).andThen ?_
  refine (Payload.reads_encodeUInt32 claim.version).andThen ?_
  exact (Payload.reads_encodeInt64 claim.timestamp).map _

theorem length_encode_le (claim : Claim) :
    claim.encode.length ≤ claim.publicKey.length + 36 := by
  have hkey := Payload.length_encodeBytes_le claim.publicKey
  have hport := Payload.Varint.length_encode_le claim.port.toNat
  have hversion := Payload.Varint.length_encode_le claim.version.toNat
  have htimestamp :=
    Payload.Varint.length_encode_le (Payload.Varint.zigzag claim.timestamp.toInt)
  simp only [encode, Payload.encodeUInt16, Payload.encodeUInt32, Payload.encodeInt64,
    List.length_append]
  omega

end Claim

namespace Handshake

theorem reads_encode {handshake : Handshake}
    (hkey : handshake.claim.publicKey.length < Bytes.span 8)
    (hsignature : handshake.signature.length < Bytes.span 8) :
    Handshake.decode.Reads handshake.encode handshake := by
  refine (Claim.reads_encode hkey).andThen ?_
  exact (Payload.reads_encodeBytes hsignature).map _

theorem length_encode_le (handshake : Handshake) :
    handshake.encode.length ≤
      handshake.claim.publicKey.length + handshake.signature.length + 45 := by
  have hclaim := handshake.claim.length_encode_le
  have hsignature := Payload.length_encodeBytes_le handshake.signature
  rw [encode, List.length_append]
  omega

/-- The bytes of a handshake on a stream: a whole frame. -/
def bytes (handshake : Handshake) : Bytes :=
  Frame.header MessageKind.handshake.tag 0 handshake.encode.length ++ handshake.encode

theorem bytes_whole (handshake : Handshake) :
    (Frame.whole handshake.toMessage).bytes = handshake.bytes := by
  have hpayload : handshake.toMessage.payload.bytes = handshake.encode :=
    Payload.bytes_ofBytes handshake.encode
  rw [Frame.bytes, ← Payload.length_bytes, hpayload]
  rfl

/-- A stream that lets all writes through takes all of a handshake that is not too long. -/
theorem send_willing {handshake : Handshake} (hfits : handshake.encode.length ≤ maxHandshakeLength)
    {sink : Sink} (hwilling : sink.IsWilling) :
    (handshake.send sink).result = .ok () ∧ (handshake.send sink).taken = handshake.bytes := by
  have hlength : (Frame.whole handshake.toMessage).length ≤ maxFrameLength := by
    have hpayload : handshake.toMessage.payload.bytes = handshake.encode :=
      Payload.bytes_ofBytes handshake.encode
    rw [Frame.length, ← Payload.length_bytes, hpayload]
    exact Nat.le_trans hfits (by decide)
  obtain ⟨hok, htaken⟩ := sendFrames_willing
    (fun frame hframe => (List.mem_singleton.1 hframe).symm ▸ hlength) hwilling
  rw [List.flatMap_singleton, bytes_whole] at htaken
  exact ⟨hok, htaken⟩

end Handshake

namespace Handshaker

variable {node : Handshaker}

theorem verify_eq_ok_iff {handshake : Handshake} {identity : Identity} :
    node.verify handshake = .ok identity ↔
      handshake.claim.publicKey ≠ node.key.publicKey ∧
        handshake.claim.version = node.version ∧ handshake.isSigned = true ∧
          handshake.claim.identity = identity := by
  rw [verify]
  by_cases hkey : handshake.claim.publicKey = node.key.publicKey
  · simp [hkey]
  · by_cases hversion : handshake.claim.version = node.version
    · cases hsigned : handshake.isSigned <;> simp [hkey, hversion]
    · simp [hkey, hversion]

/-- Whom the other side of a handshake meets. -/
def identity (node : Handshaker) : Identity :=
  ⟨node.key.publicKey, node.port, node.version⟩

theorem identity_build (node : Handshaker) (timestamp : Int64) :
    (node.build timestamp).claim.identity = node.identity :=
  rfl

/-- The handshake of a node is not too long, whenever it is built. -/
theorem length_encode_build_le (hkey : node.key.IsMatched) (timestamp : Int64) :
    (node.build timestamp).encode.length ≤ maxHandshakeLength := by
  have hlength := (node.build timestamp).length_encode_le
  have hpublic : (node.build timestamp).claim.publicKey.length ≤ 65 := hkey.length_publicKey_le
  have hsignature : (node.build timestamp).signature.length ≤ 64 :=
    node.key.length_sign_le (node.build timestamp).claim.encode
  have hmax : maxHandshakeLength = 4096 := rfl
  omega

/-- Two nodes with the first keys of the curve. -/
def first : Handshaker where
  key := .ofSecret 1
  port := 7001

def second : Handshaker where
  key := .ofSecret 2
  port := 7002

theorem isMatched_first : first.key.IsMatched :=
  Crypto.KeyPair.isMatched_ofSecret 1

theorem isMatched_second : second.key.IsMatched :=
  Crypto.KeyPair.isMatched_ofSecret 2

theorem publicKey_first_ne : first.key.publicKey ≠ second.key.publicKey := by
  decide +kernel

set_option maxRecDepth 100000 in
theorem isSigned_build_first : (first.build 0).isSigned = true := by
  decide +kernel

set_option maxRecDepth 100000 in
theorem isSigned_build_second : (second.build 0).isSigned = true := by
  decide +kernel

end Handshaker

end Overlay
