import Overlay.Bytes
import Overlay.Payload.Fault

/-!
# Variable-length integers

A number below 251 is one byte.  A larger one is a marker byte for its width
(two, four or eight bytes) and its little-endian bytes.  Wider encodings than
needed are read too, as long as they fit the type that is read.
-/

namespace Overlay.Payload

/-- Reads a value from the front of a byte string. -/
abbrev Decoder (α : Type) := Bytes → Except DecodeFault (α × Bytes)

/-- Takes `count` bytes. -/
def takeBytes (count : Nat) : Decoder Bytes := fun bytes =>
  let taken := bytes.take count
  if taken.length = count then .ok (taken, bytes.drop count)
  else .error (.unexpectedEnd (count - taken.length))

namespace Varint

def encode (n : Nat) : Bytes :=
  if n < 251 then [UInt8.ofNat n]
  else if n < Bytes.span 2 then 251 :: Bytes.littleEndian 2 n
  else if n < Bytes.span 4 then 252 :: Bytes.littleEndian 4 n
  else 253 :: Bytes.littleEndian 8 n

/-- The widths of integers that are read. -/
inductive Width
  | bits16
  | bits32
  | bits64
  deriving DecidableEq, Repr

def Width.byteCount : Width → Nat
  | .bits16 => 2
  | .bits32 => 4
  | .bits64 => 8

/-- The type that a fault names as expected.  With nine bytes at hand a read of 64 bits names the
32-bit type. -/
def Width.expected (width : Width) (available : Nat) : IntType :=
  match width with
  | .bits16 => .u16
  | .bits32 => .u32
  | .bits64 => if available < 9 then .u64 else .u32

/-- The number of bytes after a marker, or the type it names if that does not fit. -/
def Width.follow (width : Width) (marker : UInt8) : Except IntType Nat :=
  if marker = 251 then .ok 2
  else if marker = 252 then if width = .bits16 then .error .u32 else .ok 4
  else if marker = 253 then if width = .bits64 then .ok 8 else .error .u64
  else if marker = 254 then .error .u128
  else .error .reserved

def decode (width : Width) : Decoder Nat := fun bytes =>
  match bytes with
  | [] => .error (.unexpectedEnd 1)
  | marker :: rest =>
    if marker.toNat < 251 then .ok (marker.toNat, rest)
    else
      match width.follow marker with
      | .error found => .error (.integerType (width.expected (bytes.take 9).length) found)
      | .ok count => (takeBytes count rest).map fun (digits, rest) =>
        (Bytes.ofLittleEndian digits, rest)

/-- A signed number as an unsigned one: small magnitudes stay small. -/
def zigzag (n : Int) : Nat :=
  if 0 ≤ n then 2 * n.toNat else 2 * (-n).toNat - 1

/-- The signed number of an unsigned one. -/
def unzigzag (n : Nat) : Int :=
  if n % 2 = 0 then (n / 2 : Nat) else -((n / 2 : Nat) : Int) - 1

/-- Names the signed types in a fault of a signed read. -/
def signedFault : DecodeFault → DecodeFault
  | .integerType expected found => .integerType expected.signed found.signed
  | fault => fault

end Varint

end Overlay.Payload
