import Overlay.Handshake
import Overlay.Net
import Overlay.Node.Sockets

/-!
# Neighbours

Other nodes that listen on the same machine: what a node that dials them comes
to, and what they see of it.
-/

namespace Overlay

/-- What listens at an endpoint. -/
inductive Neighbour
  /-- A node, which may refuse whoever proves who it is. -/
  | node (self : Handshaker) (refusal : Option NetError)
  /-- Something that answers a frame with fixed bytes and hangs up. -/
  | raw (reply : Bytes)
  /-- Nothing. -/
  | absent

namespace Neighbour

/-- How a node answers a dial: the meeting on its side. -/
def answer (self : Handshaker) (refusal : Option NetError) (caller : Handshaker) (now : Int64) :
    Meeting :=
  let greeting := (caller.build now).send {}
  let admission (_ : Identity) : Except NetError Unit :=
    match refusal with
    | none => .ok ()
    | some cause => .error cause
  self.respond admission now (.ofBytes greeting.taken) {}

/-- Whom the caller meets at an endpoint. -/
def meet (neighbour : Neighbour) (caller : Handshaker) (e : Endpoint) (now : Int64) :
    Except NetError Identity :=
  match neighbour with
  | .node self refusal =>
    let reply := (answer self refusal caller now).sent
    (caller.initiate now (.ofBytes reply) {}).result
  | .raw reply => (caller.initiate now (.ofBytes reply) {}).result
  | .absent => .error (Sockets.dialFault e)

/-- How dials to an endpoint end. -/
def plan (neighbour : Neighbour) (caller : Handshaker) (e : Endpoint) (now : Int64) : Plan where
  outcome := (neighbour.meet caller e now).map fun identity =>
    { key := some identity.publicKey, port := some identity.port, version := identity.version }

end Neighbour

end Overlay
