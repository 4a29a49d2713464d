import Overlay.Address.Reader
import Overlay.Text.Quoted

/-!
# Internet addresses

Addresses of both families with their canonical texts.  The text of an IPv6
address drops leading zeros, shortens the first of its longest runs of zero
groups, and writes an embedded IPv4 address with dots.
-/

namespace Overlay.Address

structure Ipv4 where
  a : UInt8
  b : UInt8
  c : UInt8
  d : UInt8
  deriving DecidableEq, Repr

/-- An IPv6 address: its eight groups. -/
structure Ipv6 where
  groups : Vector UInt16 8
  deriving DecidableEq, Repr

inductive Ip
  | v4 (address : Ipv4)
  | v6 (address : Ipv6)
  deriving DecidableEq, Repr

namespace Ipv4

def text (ip : Ipv4) : String :=
  s!"{ip.a.toNat}.{ip.b.toNat}.{ip.c.toNat}.{ip.d.toNat}"

/-- Reads one of the four numbers. -/
def readPart? (chars : List Char) : Option (UInt8 × List Char) :=
  match readNumber? 10 (some 3) false chars with
  | some (n, rest) => if n < 256 then some (UInt8.ofNat n, rest) else none
  | none => none

def read? (chars : List Char) : Option (Ipv4 × List Char) := do
  let (a, chars) ← readPart? chars
  let (b, chars) ← readPart? (← readChar? '.' chars)
  let (c, chars) ← readPart? (← readChar? '.' chars)
  let (d, chars) ← readPart? (← readChar? '.' chars)
  return (⟨a, b, c, d⟩, chars)

def parse? (chars : List Char) : Option Ipv4 :=
  match read? chars with
  | some (ip, []) => some ip
  | _ => none

end Ipv4

namespace Ipv6

/-- The address embedded as `::ffff:a.b.c.d`. -/
def embedded? (ip : Ipv6) : Option Ipv4 :=
  match ip.groups.toList with
  | [0, 0, 0, 0, 0, 0xFFFF, high, low] =>
    some ⟨(high / 256).toUInt8, high.toUInt8, (low / 256).toUInt8, low.toUInt8⟩
  | _ => none

/-- The number of zero groups at the front. -/
def zeroRun : List UInt16 → Nat
  | [] => 0
  | g :: rest => if g = 0 then zeroRun rest + 1 else 0

/-- The position and length of the first of the longest runs of zero groups. -/
def longestRun (position : Nat) : List UInt16 → Nat × Nat
  | [] => (position, 0)
  | g :: rest =>
    let here := zeroRun (g :: rest)
    let later := longestRun (position + 1) rest
    if later.2 ≤ here then (position, here) else later

/-- Groups in hexadecimal with colons between them. -/
def groupsText (groups : List UInt16) : String :=
  ":".intercalate (groups.map fun g => Text.hexNat g.toNat)

def text (ip : Ipv6) : String :=
  match ip.embedded? with
  | some v4 => "::ffff:" ++ v4.text
  | none =>
    let groups := ip.groups.toList
    let (start, length) := longestRun 0 groups
    if length < 2 then groupsText groups
    else groupsText (groups.take start) ++ "::" ++ groupsText (groups.drop (start + length))

/-- Reads a separator in front of every group but the first. -/
def readSeparator? (index : Nat) (chars : List Char) : Option (List Char) :=
  if index = 0 then some chars else readChar? ':' chars

/-- Reads up to `room` more groups after `index` others, the last two possibly as an IPv4 address;
says whether they were. -/
def readGroups (index : Nat) : Nat → List Char → List UInt16 × Bool × List Char
  | 0, chars => ([], false, chars)
  | room + 1, chars =>
    let embedded := if room = 0 then none else readSeparator? index chars >>= Ipv4.read?
    match embedded with
    | some (ip, rest) =>
      ([ip.a.toUInt16 * 256 + ip.b.toUInt16, ip.c.toUInt16 * 256 + ip.d.toUInt16], true, rest)
    | none =>
      match readSeparator? index chars >>= readNumber? 16 (some 4) true with
      | none => ([], false, chars)
      | some (g, rest) =>
        let (groups, dotted, rest) := readGroups (index + 1) room rest
        (UInt16.ofNat g :: groups, dotted, rest)

/-- The address of a list of groups, of which there should be eight. -/
def ofGroups (groups : List UInt16) : Ipv6 :=
  ⟨Vector.ofFn fun i => groups.getD i 0⟩

def read? (chars : List Char) : Option (Ipv6 × List Char) :=
  let (head, dotted, rest) := readGroups 0 8 chars
  if head.length = 8 then some (ofGroups head, rest)
  else if dotted then none
  else
    match readChar? ':' rest >>= readChar? ':' with
    | none => none
    | some rest =>
      let (tail, _, rest) := readGroups 0 (7 - head.length) rest
      some (ofGroups (head ++ List.replicate (8 - head.length - tail.length) 0 ++ tail), rest)

def parse? (chars : List Char) : Option Ipv6 :=
  match read? chars with
  | some (ip, []) => some ip
  | _ => none

end Ipv6

namespace Ip

def text : Ip → String
  | .v4 ip => ip.text
  | .v6 ip => ip.text

def parse? (text : String) : Option Ip :=
  match Ipv4.parse? text.toList with
  | some ip => some (.v4 ip)
  | none => (Ipv6.parse? text.toList).map .v6

end Ip

end Overlay.Address
