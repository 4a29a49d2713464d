/-!
# Faults of payload decoding
-/

namespace Overlay.Payload

inductive IntType
  | u16
  | u32
  | u64
  | u128
  | i32
  | i64
  | i128
  | reserved
  deriving DecidableEq, Repr

def IntType.name : IntType → String
  | .u16 => "U16"
  | .u32 => "U32"
  | .u64 => "U64"
  | .u128 => "U128"
  | .i32 => "I32"
  | .i64 => "I64"
  | .i128 => "I128"
  | .reserved => "Reserved"

def IntType.signed : IntType → IntType
  | .u32 => .i32
  | .u64 => .i64
  | .u128 => .i128
  | other => other

/-- Why bytes are not the encoding of a value. -/
inductive DecodeFault
  /-- A read failed for want of this many bytes. -/
  | unexpectedEnd (missing : Nat)
  /-- The marker of an integer names a type that is too wide. -/
  | integerType (expected found : IntType)
  /-- A text is not UTF-8: so many bytes are, and then so many are not,
  or the text ends within a character. -/
  | notUtf8 (validUpTo : Nat) (invalid : Option Nat)
  /-- Bytes are left over. -/
  | trailing (count : Nat)
  deriving DecidableEq, Repr

def DecodeFault.text : DecodeFault → String
  | .unexpectedEnd missing => s!"UnexpectedEnd \x7b additional: {missing} \x7d"
  | .integerType expected found =>
    s!"InvalidIntegerType \x7b expected: {expected.name}, found: {found.name} \x7d"
  | .notUtf8 validUpTo invalid =>
    let length := match invalid with
      | some n => s!"Some({n})"
      | none => "None"
    s!"Utf8 \x7b inner: Utf8Error \x7b valid_up_to: {validUpTo}, error_len: {length} \x7d \x7d"
  | .trailing count => s!"{count} trailing bytes after payload"

end Overlay.Payload
