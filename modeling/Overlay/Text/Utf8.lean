import Overlay.Bytes

/-!
# UTF-8

Where a byte string stops being UTF-8, and the text that it is otherwise.
-/

namespace Overlay.Text.Utf8

/-- Where a byte string stops being UTF-8: after `validUpTo` bytes.  Then `invalid` bytes are
wrong, or the string ends within a character. -/
structure Fault where
  validUpTo : Nat
  invalid : Option Nat
  deriving DecidableEq, Repr

def isContinuation (b : UInt8) : Bool :=
  0x80 ≤ b && b ≤ 0xBF

/-- The bytes that may follow the first byte of a character of three or four bytes. -/
def secondRange (first : UInt8) : UInt8 × UInt8 :=
  if first = 0xE0 then (0xA0, 0xBF)
  else if first = 0xED then (0x80, 0x9F)
  else if first = 0xF0 then (0x90, 0xBF)
  else if first = 0xF4 then (0x80, 0x8F)
  else (0x80, 0xBF)

/-- Matches the bytes after the first two of a character; `seen` bytes were right so far.  The
result is the number of bytes of the character or the fault, and the rest. -/
def continuations : Nat → Nat → Bytes → Except (Option Nat) Nat
  | 0, seen, _ => .ok seen
  | _ + 1, _, [] => .error none
  | need + 1, seen, b :: rest =>
    if isContinuation b then continuations need (seen + 1) rest else .error (some seen)

/-- The length of the character in front of a byte string that is not empty. -/
def charLength (first : UInt8) (rest : Bytes) : Except (Option Nat) Nat :=
  if first < 0x80 then .ok 1
  else if first < 0xC2 then .error (some 1)
  else if first < 0xE0 then continuations 1 1 rest
  else if first < 0xF5 then
    let range := secondRange first
    match rest with
    | [] => .error none
    | second :: rest =>
      if range.1 ≤ second && second ≤ range.2 then
        continuations (if first < 0xF0 then 1 else 2) 2 rest
      else .error (some 1)
  else .error (some 1)

/-- The first fault of a byte string, of which `position` bytes were right and `skip` more belong
to the last character. -/
def faultFrom (position skip : Nat) : Bytes → Option Fault
  | [] => none
  | b :: rest =>
    match skip with
    | skip + 1 => faultFrom position skip rest
    | 0 =>
      match charLength b rest with
      | .error invalid => some ⟨position, invalid⟩
      | .ok length => faultFrom (position + length) (length - 1) rest

/-- The first fault of a byte string. -/
def fault? (bytes : Bytes) : Option Fault :=
  faultFrom 0 0 bytes

def decode (bytes : Bytes) : Except Fault String :=
  match String.fromUTF8? (Payload.ofBytes bytes) with
  | some text => .ok text
  | none => .error ((fault? bytes).getD ⟨0, none⟩)

end Overlay.Text.Utf8
