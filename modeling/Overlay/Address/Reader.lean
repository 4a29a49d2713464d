import Overlay.Text.Decimal

/-!
# Reading numbers in addresses
-/

namespace Overlay.Address

/-- The digits at the front of a text and what follows them. -/
def spanDigits (base : Nat) : List Char → List Nat × List Char
  | [] => ([], [])
  | c :: rest =>
    match Text.digitValue? base c with
    | none => ([], c :: rest)
    | some d =>
      let (digits, rest) := spanDigits base rest
      (d :: digits, rest)

/-- The value of digits, most significant first. -/
def ofDigits (base : Nat) (digits : List Nat) : Nat :=
  digits.foldl (fun n d => base * n + d) 0

/-- Reads a number of at least one and at most `most` digits. -/
def readNumber? (base : Nat) (most : Option Nat) (zeroPadded : Bool) (chars : List Char) :
    Option (Nat × List Char) :=
  let (digits, rest) := spanDigits base chars
  if digits = [] then none
  else if most.any (· < digits.length) then none
  else if !zeroPadded && digits.head? = some 0 && 1 < digits.length then none
  else some (ofDigits base digits, rest)

def readChar? (c : Char) : List Char → Option (List Char)
  | [] => none
  | d :: rest => if d = c then some rest else none

end Overlay.Address
