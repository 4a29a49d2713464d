import Overlay.PeerRecord
import Overlay.Proofs.Handshake.Greeting
import Overlay.Proofs.Payload.Delimiting

/-!
# The payloads of a node

What a node writes as a payload, it reads back: requests and lists of peers,
handshakes and the claims that they sign, endpoints, and the records that it
keeps of peers.  A payload that it reads is the whole of one value, so that
every proper beginning of it ends too early and everything behind it is too
much.  The messages that carry payloads give them back, and no message of
another kind is taken for them.

Lengths are written as numbers of 64 bits.  A value fits if its own lengths
are such numbers, as they are for all that is held in memory.
-/

namespace Overlay

namespace Payload

theorem reads_encodeText {text : String} (htext : (Bytes.ofText text).length < Bytes.span 8) :
    decodeText.Reads (encodeText text) text := by
  intro rest
  have hutf8 : Text.Utf8.decode (Bytes.ofText text) = .ok text := by
    have hpacked : Payload.ofBytes (Bytes.ofText text) = text.toUTF8 := Payload.ofBytes_bytes _
    unfold Text.Utf8.decode String.fromUTF8?
    rw [hpacked, String.toUTF8_eq_toByteArray, dif_pos text.isValidUTF8]
    rfl
  unfold decodeText encodeText Decoder.andThen
  simp only [reads_encodeBytes htext rest, hutf8]

section Lists

variable {α : Type} {encode : α → Bytes} {decode : Decoder α} {items : List α}

theorem reads_encodeItems (hitems : ∀ item ∈ items, decode.Reads (encode item) item) :
    (decodeItems decode items.length).Reads (encodeItems encode items) items := by
  induction items with
  | nil => exact fun _ => rfl
  | cons item items ih =>
      have hothers := ih fun other hother => hitems other (List.mem_cons_of_mem item hother)
      exact (hitems item List.mem_cons_self).andThen (hothers.map (item :: ·))

/-- A list is read back if its items are and its length is a number of 64 bits. -/
theorem reads_encodeList (hlength : items.length < Bytes.span 8)
    (hitems : ∀ item ∈ items, decode.Reads (encode item) item) :
    (decodeList decode).Reads (encodeList encode items) items :=
  (Varint.reads_encode .bits64 hlength).andThen (reads_encodeItems hitems)

end Lists

/-- How the values of a type are written as payloads, how they are read, and which of them have
lengths that can be written. -/
structure Format (α : Type) where
  encode : α → Bytes
  decode : Decoder α
  Fits : α → Prop

namespace Format

variable {α : Type}

/-- Values are read back from their payloads, and a payload that is read is the whole of one
value: less of it ends too early, and more of it is refused for what is too much. -/
structure Lawful (format : Format α) : Prop where
  deserialize_encode : ∀ value : α, format.Fits value →
    deserialize format.decode (format.encode value) = .ok value
  deserialize_front : ∀ (bytes : Bytes) (value : α), deserialize format.decode bytes = .ok value →
    ∀ front : Bytes, front <+: bytes → front ≠ bytes → ∃ missing : Nat,
      deserialize format.decode front = .error (.serialization (.decode (.unexpectedEnd missing)))
  deserialize_append : ∀ (bytes : Bytes) (value : α), deserialize format.decode bytes = .ok value →
    ∀ extra : Bytes, extra ≠ [] → deserialize format.decode (bytes ++ extra) =
      .error (.serialization (.decode (.trailing extra.length)))

/-- A format is lawful if its decoder reads back what fits and delimits what it reads. -/
theorem lawful_of_reads {format : Format α}
    (hreads : ∀ value, format.Fits value → format.decode.Reads (format.encode value) value)
    (hdelimits : format.decode.Delimits) : format.Lawful where
  deserialize_encode := by
    intro value hfits
    exact (hreads value hfits).deserialize_eq
  deserialize_front := by
    intro bytes value hread front hfront hne
    exact (hdelimits.takes hread).deserialize_front hfront hne
  deserialize_append := by
    intro bytes value hread extra hextra
    exact (hdelimits.takes hread).reads.deserialize_append hextra

/-- The messages of a kind carry the payloads of a format: a value comes back from its message, and
a message of another kind is refused with what it is. -/
structure Carried (format : Format α) (kind : MessageKind) (toMessage : α → Wire.Message)
    (ofMessage : Wire.Message → Except NetError α) : Prop where
  ofMessage_toMessage : ∀ value : α, format.Fits value → ofMessage (toMessage value) = .ok value
  ofMessage_of_ne : ∀ message : Wire.Message, message.tag ≠ kind.tag →
    ofMessage message = .error (.protocol (.unexpectedTag kind.name message.tag.toNat))

theorem Lawful.carried {format : Format α} (hlawful : format.Lawful) (kind : MessageKind) :
    format.Carried kind (fun value => kind.message (.ofBytes (format.encode value)))
      (kind.decode format.decode) where
  ofMessage_toMessage := by
    intro value hfits
    unfold MessageKind.decode MessageKind.message
    rw [if_pos rfl, Payload.bytes_ofBytes]
    exact hlawful.deserialize_encode value hfits
  ofMessage_of_ne := by
    intro message hne
    unfold MessageKind.decode
    rw [if_neg hne]

end Format

end Payload

open Payload

/-! ## The formats -/

/-- An endpoint, which is also how the address of a peer is told to others. -/
def Endpoint.format : Format Endpoint where
  encode := encodeEndpoint
  decode := decodeEndpoint
  Fits e := (Bytes.ofText e.host).length < Bytes.span 8

theorem Endpoint.reads_encode {e : Endpoint} (hfits : Endpoint.format.Fits e) :
    decodeEndpoint.Reads (encodeEndpoint e) e :=
  (reads_encodeText hfits).andThen ((reads_encodeUInt16 e.port).map _)

theorem Endpoint.format_lawful : Endpoint.format.Lawful :=
  Format.lawful_of_reads (fun _ hfits => reads_encode hfits) delimits_decodeEndpoint

namespace PeerRecord

def format : Format PeerRecord where
  encode := encode
  decode := decode
  Fits record := Endpoint.format.Fits record.endpoint

theorem reads_encode {record : PeerRecord} (hfits : format.Fits record) :
    decode.Reads record.encode record :=
  (Endpoint.reads_encode hfits).andThen ((reads_encodeInt64 record.lastSeen).map _)

theorem format_lawful : format.Lawful := by
  apply Format.lawful_of_reads
  · intro record hfits
    exact reads_encode hfits
  · exact delimits_decodeEndpoint.andThen fun _ => delimits_decodeInt64.map _

end PeerRecord

namespace PeerRequest

def format : Format PeerRequest where
  encode := encode
  decode := decode
  Fits _ := True

theorem format_lawful : format.Lawful := by
  apply Format.lawful_of_reads
  · intro request _
    exact (reads_encodeUInt16 request.count).map _
  · exact delimits_decodeUInt16.map _

end PeerRequest

namespace PeerList

def format : Format PeerList where
  encode := encode
  decode := decode
  Fits list := list.peers.length < Bytes.span 8 ∧ ∀ e ∈ list.peers, Endpoint.format.Fits e

theorem format_lawful : format.Lawful := by
  apply Format.lawful_of_reads
  · intro list hfits
    have hpeers : ∀ e ∈ list.peers, decodeEndpoint.Reads (encodeEndpoint e) e :=
      fun e he => Endpoint.reads_encode (hfits.2 e he)
    exact (reads_encodeList hfits.1 hpeers).map _
  · exact (delimits_decodeList delimits_decodeEndpoint).map _

end PeerList

namespace Claim

def format : Format Claim where
  encode := encode
  decode := decode
  Fits claim := claim.publicKey.length < Bytes.span 8

theorem delimits_decode : decode.Delimits := by
  apply delimits_decodeBytes.andThen
  intro publicKey
  apply delimits_decodeUInt16.andThen
  intro port
  apply delimits_decodeUInt32.andThen
  intro version
  exact delimits_decodeInt64.map _

theorem format_lawful : format.Lawful :=
  Format.lawful_of_reads (fun _ hfits => reads_encode hfits) delimits_decode

end Claim

namespace Handshake

def format : Format Handshake where
  encode := encode
  decode := decode
  Fits handshake := Claim.format.Fits handshake.claim ∧ handshake.signature.length < Bytes.span 8

theorem format_lawful : format.Lawful := by
  apply Format.lawful_of_reads
  · intro handshake hfits
    exact reads_encode hfits.1 hfits.2
  · exact Claim.delimits_decode.andThen fun _ => delimits_decodeBytes.map _

/-- A handshake is longer than the key in it. -/
theorem length_publicKey_lt (handshake : Handshake) :
    handshake.claim.publicKey.length < handshake.encode.length := by
  have hmarker := Varint.length_encode_pos handshake.claim.publicKey.length
  simp only [encode, Claim.encode, encodeBytes, List.length_append]
  omega

end Handshake

/-! ## All of them -/

/-- **Payloads are read back, and end where their value ends.**  Every value whose lengths can be
written is read from its payload.  A payload that is read as a value ends too early if anything is
cut off from it, and is refused for just what was added if something was.  The messages that carry
requests, lists and handshakes give back what they carry, the endpoints of a list among it, and no
message of another kind is read as one of them. -/
theorem payloads_read_back_and_delimited :
    Endpoint.format.Lawful ∧ PeerRecord.format.Lawful ∧ PeerRequest.format.Lawful ∧
      PeerList.format.Lawful ∧ Claim.format.Lawful ∧ Handshake.format.Lawful ∧
    PeerRequest.format.Carried .requestPeers PeerRequest.toMessage PeerRequest.ofMessage ∧
    PeerList.format.Carried .returnPeers PeerList.toMessage PeerList.ofMessage ∧
    Handshake.format.Carried .handshake Handshake.toMessage Handshake.ofMessage ∧
    ∀ endpoints : List Endpoint, PeerList.format.Fits ⟨endpoints⟩ →
      (PeerList.ofMessage (PeerList.mk endpoints).toMessage).map PeerList.peers =
        .ok endpoints := by
  have hlist : PeerList.format.Carried .returnPeers PeerList.toMessage PeerList.ofMessage :=
    PeerList.format_lawful.carried .returnPeers
  refine ⟨Endpoint.format_lawful, PeerRecord.format_lawful, PeerRequest.format_lawful,
    PeerList.format_lawful, Claim.format_lawful, Handshake.format_lawful,
    PeerRequest.format_lawful.carried .requestPeers, hlist,
    Handshake.format_lawful.carried .handshake, ?_⟩
  intro endpoints hfits
  rw [hlist.ofMessage_toMessage ⟨endpoints⟩ hfits]
  rfl

/-- A handshake with a key of 65536 bytes, a signature of 251 bytes and the earliest time. -/
def Handshake.lengthy : Handshake where
  claim := ⟨List.replicate 65536 7, 65535, 4294967295, Int64.minValue⟩
  signature := List.replicate 251 9

/-- Lengths on both sides of their markers are read back, and the end of the payload is seen. -/
theorem payloads_read_back_and_delimited_lengthy :
    Handshake.format.Fits .lengthy ∧
      Handshake.ofMessage Handshake.lengthy.toMessage = .ok .lengthy ∧
      (∃ missing : Nat, deserialize Handshake.decode (Handshake.lengthy.encode.take 65536) =
        .error (.serialization (.decode (.unexpectedEnd missing)))) ∧
      deserialize Handshake.decode (Handshake.lengthy.encode ++ [0, 0]) =
        .error (.serialization (.decode (.trailing 2))) := by
  obtain ⟨-, -, -, -, -, hlawful, -, -, hcarried, -⟩ := payloads_read_back_and_delimited
  have hkey : Handshake.lengthy.claim.publicKey.length = 65536 := List.length_replicate
  have hsignature : Handshake.lengthy.signature.length = 251 := List.length_replicate
  have hspan : 65536 < Bytes.span 8 := by decide
  have hfits : Handshake.format.Fits .lengthy := by
    constructor
    · show Handshake.lengthy.claim.publicKey.length < Bytes.span 8
      omega
    · omega
  have hread := hlawful.deserialize_encode .lengthy hfits
  have hlong : Handshake.lengthy.encode.take 65536 ≠ Handshake.lengthy.encode := by
    intro hsame
    have hbytes := Handshake.lengthy.length_publicKey_lt
    have htaken := List.length_take_le 65536 Handshake.lengthy.encode
    rw [hsame] at htaken
    omega
  exact ⟨hfits, hcarried.ofMessage_toMessage .lengthy hfits,
    hlawful.deserialize_front _ .lengthy hread _ (List.take_prefix _ _) hlong,
    hlawful.deserialize_append _ .lengthy hread [0, 0] (List.cons_ne_nil _ _)⟩

end Overlay
