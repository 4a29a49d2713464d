import Overlay.Bytes

/-!
# Distinguished encoding

Values with a tag, a length in its shortest form of at most two bytes beside
its marker, and content.
-/

namespace Overlay.Crypto.Der

inductive Tag
  | integer
  | bitString
  | octetString
  | sequence
  | context0
  | context1
  deriving DecidableEq, Repr

def Tag.byte : Tag → UInt8
  | .integer => 0x02
  | .bitString => 0x03
  | .octetString => 0x04
  | .sequence => 0x30
  | .context0 => 0xA0
  | .context1 => 0xA1

/-- Reads a length. -/
def readLength? : Bytes → Option (Nat × Bytes)
  | 0x81 :: a :: rest => if a.toNat < 128 then none else some (a.toNat, rest)
  | 0x82 :: a :: b :: rest =>
    let length := 256 * a.toNat + b.toNat
    if length < 256 then none else some (length, rest)
  | a :: rest => if a.toNat < 128 then some (a.toNat, rest) else none
  | [] => none

/-- Reads the content of a value that has to have a tag. -/
def read? (tag : Tag) : Bytes → Option (Bytes × Bytes)
  | [] => none
  | t :: rest =>
    if t ≠ tag.byte then none
    else
      match readLength? rest with
      | none => none
      | some (length, rest) =>
        let content := rest.take length
        if content.length = length then some (content, rest.drop length) else none

/-- Whether a value with a tag comes next. -/
def startsWith (tag : Tag) (bytes : Bytes) : Bool :=
  bytes.head? == some tag.byte

/-- Reads a number from 0 to 255. -/
def readSmall? (bytes : Bytes) : Option (Nat × Bytes) :=
  match read? .integer bytes with
  | some ([a], rest) => if a.toNat < 128 then some (a.toNat, rest) else none
  | some ([0, a], rest) => if 128 ≤ a.toNat then some (a.toNat, rest) else none
  | _ => none

/-- The length of a content of less than 65536 bytes. -/
def writeLength (length : Nat) : Bytes :=
  if length < 128 then [UInt8.ofNat length]
  else if length < 256 then [0x81, UInt8.ofNat length]
  else 0x82 :: Bytes.bigEndian 2 length

def write (tag : Tag) (content : Bytes) : Bytes :=
  tag.byte :: writeLength content.length ++ content

end Overlay.Crypto.Der
