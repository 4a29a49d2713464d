import Overlay.Endpoint
import Overlay.Payload.Varint
import Overlay.Text.Utf8

/-!
# Encodings of values

Numbers are variable-length integers, texts and byte strings their length and
their bytes, lists their length and their items, and records their fields in
order.  A payload is one value and nothing else.
-/

namespace Overlay.Payload

/-- Reads a value and continues with what follows it. -/
def Decoder.andThen {α β : Type} (first : Decoder α) (next : α → Decoder β) : Decoder β :=
  fun bytes =>
    match first bytes with
    | .error fault => .error fault
    | .ok (value, rest) => next value rest

/-- Reads a value and changes it. -/
def Decoder.map {α β : Type} (f : α → β) (decoder : Decoder α) : Decoder β :=
  decoder.andThen fun value rest => .ok (f value, rest)

def encodeUInt16 (n : UInt16) : Bytes :=
  Varint.encode n.toNat

def decodeUInt16 : Decoder UInt16 :=
  (Varint.decode .bits16).map UInt16.ofNat

def encodeUInt32 (n : UInt32) : Bytes :=
  Varint.encode n.toNat

def decodeUInt32 : Decoder UInt32 :=
  (Varint.decode .bits32).map UInt32.ofNat

def encodeInt64 (n : Int64) : Bytes :=
  Varint.encode (Varint.zigzag n.toInt)

def decodeInt64 : Decoder Int64 := fun bytes =>
  match Varint.decode .bits64 bytes with
  | .error fault => .error (Varint.signedFault fault)
  | .ok (n, rest) => .ok (Int64.ofInt (Varint.unzigzag n), rest)

def encodeBytes (bytes : Bytes) : Bytes :=
  Varint.encode bytes.length ++ bytes

def decodeBytes : Decoder Bytes :=
  (Varint.decode .bits64).andThen takeBytes

def encodeText (text : String) : Bytes :=
  encodeBytes (Bytes.ofText text)

def decodeText : Decoder String :=
  decodeBytes.andThen fun bytes rest =>
    match Text.Utf8.decode bytes with
    | .ok text => .ok (text, rest)
    | .error fault => .error (.notUtf8 fault.validUpTo fault.invalid)

/-- The encodings of the items of a list, one after the other. -/
def encodeItems {α : Type} (encode : α → Bytes) (items : List α) : Bytes :=
  items.flatMap encode

/-- Reads so many items. -/
def decodeItems {α : Type} (decode : Decoder α) : Nat → Decoder (List α)
  | 0 => fun bytes => .ok ([], bytes)
  | count + 1 => decode.andThen fun item => (decodeItems decode count).map (item :: ·)

def encodeList {α : Type} (encode : α → Bytes) (items : List α) : Bytes :=
  Varint.encode items.length ++ encodeItems encode items

def decodeList {α : Type} (decode : Decoder α) : Decoder (List α) :=
  (Varint.decode .bits64).andThen (decodeItems decode)

def encodeEndpoint (e : Endpoint) : Bytes :=
  encodeText e.host ++ encodeUInt16 e.port

def decodeEndpoint : Decoder Endpoint :=
  decodeText.andThen fun host => decodeUInt16.map fun port => ⟨host, port⟩

/-- Decodes a byte string that is one value. -/
def decodeAll {α : Type} (decode : Decoder α) (bytes : Bytes) : Except DecodeFault α :=
  match decode bytes with
  | .error fault => .error fault
  | .ok (value, []) => .ok value
  | .ok (_, rest) => .error (.trailing rest.length)

/-- Decodes a payload that is one value. -/
def deserialize {α : Type} (decode : Decoder α) (bytes : Bytes) : Except NetError α :=
  (decodeAll decode bytes).mapError fun fault => .serialization (.decode fault)

end Overlay.Payload
