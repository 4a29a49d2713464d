import Overlay.Endpoint

/-!
# Sockets of a host

A host has two addresses: its own, and the one that stands for all of them.
Binding reads a text as an address with a port; dialing fails where nobody
listens.
-/

namespace Overlay.Sockets

/-- The host at which a node reaches those on the same machine. -/
def localHost : String := "127.0.0.1"

/-- The host that stands for all addresses of a machine. -/
def anyHost : String := "0.0.0.0"

def isLocal (ip : Address.Ip) : Bool :=
  ip.text = localHost || ip.text = anyHost

/-- The fault of a name that stands for no address. -/
def unknownName : String :=
  "failed to lookup address information: Name or service not known"

/-- Reads a text as an address with a port. -/
def resolve (address : String) : Except String Address.Socket :=
  match Address.Socket.parse? address with
  | some socket => .ok socket
  | none =>
    match Text.splitLast ':' address.toList with
    | none => .error "invalid socket address"
    | some (host, port) =>
      match Text.readUInt16 port with
      | .error _ => .error "invalid port value"
      | .ok port =>
        match Address.Ip.parse? (String.ofList host) with
        | some ip => .ok { ip, port }
        | none => .error unknownName

/-- Binds an address: the host and the port that it is then bound to.  Port zero stands for a free
port, and a taken one cannot be bound. -/
def bind (taken : List UInt16) (free : UInt16) (address : String) :
    Except NetError (String × UInt16) :=
  let failed (fault : String) : Except NetError (String × UInt16) :=
    .error (.bind s!"{address}: {fault}")
  match resolve address with
  | .error fault => failed fault
  | .ok socket =>
    if !isLocal socket.ip then failed "Cannot assign requested address (os error 99)"
    else
      let port := if socket.port = 0 then free else socket.port
      if port ∈ taken then failed "Address already in use (os error 98)"
      else .ok (socket.ip.text, port)

/-- Why a dial fails at an endpoint where nobody listens. -/
def dialFault (e : Endpoint) : NetError :=
  match e.resolve with
  | .error cause => cause
  | .ok sockets =>
    let fault :=
      if sockets.all fun socket => isLocal socket.ip then "Connection refused (os error 111)"
      else "Network is unreachable (os error 101)"
    .io s!"Failed to connect to {e.display}: {fault}"

/-- Dials an endpoint, at which somebody listens or not.  Only the machine itself can be reached. -/
def dial (listening : Bool) (e : Endpoint) : Except NetError Unit :=
  match e.resolve with
  | .error cause => .error cause
  | .ok sockets =>
    if listening && sockets.all fun socket => isLocal socket.ip then .ok ()
    else .error (dialFault e)

end Overlay.Sockets
