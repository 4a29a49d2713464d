/-!
# Bounded decimal numbers

A number is read digit by digit from the left, after an optional plus sign.
The first character that is no digit, or the first digit that takes the value
past the bound, ends the reading.
-/

namespace Overlay.Text

/-- Why a text is not a number within its bound. -/
inductive NumberFault
  | empty
  | invalidDigit
  | tooLarge
  deriving DecidableEq, Repr

def NumberFault.text : NumberFault → String
  | .empty => "cannot parse integer from empty string"
  | .invalidDigit => "invalid digit found in string"
  | .tooLarge => "number too large to fit in target type"

/-- The value of a digit in a base of at most sixteen. -/
def digitValue? (base : Nat) (c : Char) : Option Nat :=
  let value :=
    if '0' ≤ c ∧ c ≤ '9' then c.toNat - '0'.toNat
    else if 'a' ≤ c ∧ c ≤ 'f' then c.toNat - 'a'.toNat + 10
    else if 'A' ≤ c ∧ c ≤ 'F' then c.toNat - 'A'.toNat + 10
    else base
  if value < base then some value else none

/-- Continues a decimal number of value `n` that may not exceed `bound`. -/
def readDigits (bound n : Nat) : List Char → Except NumberFault Nat
  | [] => .ok n
  | c :: rest =>
    match digitValue? 10 c with
    | none => .error .invalidDigit
    | some d => if 10 * n + d ≤ bound then readDigits bound (10 * n + d) rest else .error .tooLarge

/-- Reads a decimal number of at most `bound`. -/
def readDecimal (bound : Nat) : List Char → Except NumberFault Nat
  | [] => .error .empty
  | ['+'] => .error .invalidDigit
  | '+' :: rest => readDigits bound 0 rest
  | chars => readDigits bound 0 chars

/-- Reads a decimal number that fits in sixteen bits. -/
def readUInt16 (chars : List Char) : Except NumberFault UInt16 :=
  (readDecimal 65535 chars).map UInt16.ofNat

end Overlay.Text
