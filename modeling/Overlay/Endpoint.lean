import Overlay.Address.Socket
import Overlay.Error
import Overlay.Text.Blank

/-!
# Endpoints

Where a node can be dialed: a host and a port.  A host with a colon is written
in brackets.  Reading takes any text that ends in a colon and a port, drops
blanks around it and brackets around the host, and refuses an empty host.
-/

namespace Overlay

structure Endpoint where
  host : String
  port : UInt16
  deriving DecidableEq, Repr

namespace Endpoint

/-- The text of an endpoint, as characters. -/
def displayChars (e : Endpoint) : List Char :=
  let host := e.host.toList
  let bracketed := if ':' ∈ host then '[' :: host ++ [']'] else host
  bracketed ++ ':' :: (toString e.port.toNat).toList

def display (e : Endpoint) : String :=
  String.ofList e.displayChars

/-- Drops opening brackets in front of a host and closing ones behind it. -/
def stripBrackets (host : List Char) : List Char :=
  Text.dropTrailing (· = ']') (host.dropWhile (· = '['))

def parse (text : String) : Except NetError Endpoint :=
  match Text.splitLast ':' (Text.trimBlank text.toList) with
  | none => .error (.config (.missingPort text))
  | some (before, after) =>
    let host := stripBrackets before
    if host = [] then .error (.config (.missingHost text))
    else
      match Text.readUInt16 after with
      | .error fault => .error (.config (.invalidPort text fault))
      | .ok port => .ok ⟨String.ofList host, port⟩

def ofSocket (socket : Address.Socket) : Endpoint :=
  ⟨socket.ip.text, socket.port⟩

/-- The socket addresses that an endpoint stands for.  Only literal addresses are known. -/
def resolve (e : Endpoint) : Except NetError (List Address.Socket) :=
  match Address.Ip.parse? e.host with
  | some ip => .ok [{ ip, port := e.port }]
  | none =>
    .error (.io (s!"Failed to resolve {e.display}: " ++
      "failed to lookup address information: Name or service not known"))

def debug (e : Endpoint) : String :=
  s!"Endpoint \x7b host: {Text.quote e.host}, port: {e.port.toNat} \x7d"

end Endpoint

end Overlay
