import Overlay.Bytes
import Overlay.Text.Quoted

/-!
# Hexadecimal text

Each byte is written as two lower-case digits; digits of both cases are read.
-/

namespace Overlay.Text.Hex

/-- The hexadecimal digits of each byte, the high half first. -/
def encodeChars (bytes : Bytes) : List Char :=
  bytes.flatMap fun b => [digitChar (b.toNat / 16), digitChar (b.toNat % 16)]

def encode (bytes : Bytes) : String :=
  String.ofList (encodeChars bytes)

/-- Why a text is not the hexadecimal text of a byte string. -/
inductive Fault
  | oddLength
  | invalidCharacter (c : Char) (position : Nat)
  deriving DecidableEq, Repr

def Fault.text : Fault → String
  | .oddLength => "Odd number of digits"
  | .invalidCharacter c position =>
    "Invalid character " ++ quoteChar c ++ s!" at position {position}"

/-- Reads pairs of digits; `position` is that of the next digit. -/
def decodePairs (position : Nat) : Bytes → Except Fault Bytes
  | high :: low :: rest =>
    let highChar := Char.ofNat high.toNat
    let lowChar := Char.ofNat low.toNat
    match digitValue? 16 highChar, digitValue? 16 lowChar with
    | none, _ => .error (.invalidCharacter highChar position)
    | some _, none => .error (.invalidCharacter lowChar (position + 1))
    | some h, some l => (decodePairs (position + 2) rest).map (UInt8.ofNat (16 * h + l) :: ·)
  | _ => .ok []

/-- Reads a hexadecimal text given as UTF-8 bytes.  Positions count bytes. -/
def decode (text : Bytes) : Except Fault Bytes :=
  if text.length % 2 ≠ 0 then .error .oddLength else decodePairs 0 text

end Overlay.Text.Hex
