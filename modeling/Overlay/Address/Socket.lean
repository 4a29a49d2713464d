import Overlay.Address.Ip

/-!
# Socket addresses

An address with a port.  An IPv6 address stands in brackets and may carry the
number of a scope, and a flow label, which is not written.
-/

namespace Overlay.Address

structure Socket where
  ip : Ip
  port : UInt16
  scope : UInt32 := 0
  flow : UInt32 := 0
  deriving DecidableEq, Repr

namespace Socket

def text (socket : Socket) : String :=
  match socket.ip with
  | .v4 ip => s!"{ip.text}:{socket.port.toNat}"
  | .v6 ip =>
    let scope := if socket.scope = 0 then "" else s!"%{socket.scope.toNat}"
    s!"[{ip.text}{scope}]:{socket.port.toNat}"

/-- Reads a colon and a port to the end of a text. -/
def parsePort? (chars : List Char) : Option UInt16 := do
  match ← readNumber? 10 none true (← readChar? ':' chars) with
  | (port, []) => if port < 65536 then some (UInt16.ofNat port) else none
  | _ => none

/-- Reads the number of a scope, if there is one. -/
def readScope? (chars : List Char) : Option (UInt32 × List Char) :=
  match readChar? '%' chars with
  | none => some (0, chars)
  | some rest =>
    match readNumber? 10 none true rest with
    | some (scope, rest) => if scope < UInt32.size then some (UInt32.ofNat scope, rest) else none
    | none => none

def parseV4? (chars : List Char) : Option Socket := do
  let (ip, chars) ← Ipv4.read? chars
  return { ip := .v4 ip, port := ← parsePort? chars }

def parseV6? (chars : List Char) : Option Socket := do
  let (ip, chars) ← Ipv6.read? (← readChar? '[' chars)
  let (scope, chars) ← readScope? chars
  return { ip := .v6 ip, port := ← parsePort? (← readChar? ']' chars), scope }

def parse? (text : String) : Option Socket :=
  (parseV4? text.toList).or (parseV6? text.toList)

end Socket

end Overlay.Address
