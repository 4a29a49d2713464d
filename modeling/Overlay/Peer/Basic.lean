import Overlay.Net
import Overlay.Policy
import Overlay.Protocol

/-!
# Peers

A peer is one remote node with the session on which it is reached.  Every
function here is one section that a peer goes through under its lock: what
happens between two of them is up to others.
-/

namespace Overlay

open Wire

/-- A live line with what is read from it and what waits to be written. -/
structure Session where
  line : Nat
  outbox : Outbox := {}
  assembler : Assembler := .idle
  /-- The failure that ended the writing, until somebody looks. -/
  failure : Option NetError := none

/-- What a peer tells its pool. -/
inductive PeerEvent
  | message (peer : Nat) (message : Message)
  | reconnected (peer : Nat)
  | unreachable (peer : Nat) (cause : NetError)

def PeerEvent.isMessage : PeerEvent → Bool
  | .message _ _ => true
  | _ => false

/-- What the supervisor of a peer does. -/
inductive Watch
  /-- It forwards what the session reads. -/
  | pumping
  /-- It waits for a slot to dial again. -/
  | waiting
  /-- It has ended. -/
  | ended
  /-- It was lost: it could not count its slots. -/
  | panicked
  deriving DecidableEq, Repr

/-- A remote node and the session on which it is reached. -/
structure Peer where
  id : Nat
  identity : Identity
  endpoint : Endpoint
  direction : Direction
  policy : LinkPolicy := {}
  state : PeerState := .connected
  session : Option Session := none
  /-- The line that an adopted session left for the supervisor. -/
  handoff : Option Nat := none
  /-- Whether somebody still hears its events. -/
  attached : Bool := true
  /-- Whether waits for a slot are over. -/
  cancelled : Bool := false
  /-- Whether the remote node said goodbye. -/
  closing : Bool := false
  received : Nat := 0
  breaches : Nat := 0
  watch : Watch := .pumping

namespace Peer

def start (id : Nat) (link : Link) (policy : LinkPolicy) : Peer :=
  { id
    identity := link.identity
    endpoint := link.endpoint
    direction := link.direction
    policy
    session := some { line := link.line } }

def isAvailable (peer : Peer) : Bool :=
  peer.state = .connected

def display (peer : Peer) : String :=
  s!"#{peer.id} {peer.endpoint.display} [{peer.identity.shortId}]"

def debug (peer : Peer) : String :=
  s!"Peer \x7b id: {peer.id}, endpoint: {peer.endpoint.debug}, state: {peer.state.name} \x7d"

def notConnected (peer : Peer) : NetError :=
  .notConnected peer.endpoint.display

def enqueue (peer : Peer) (job : Job) : Except NetError Peer :=
  if peer.state ≠ .connected then .error peer.notConnected
  else
    match peer.session with
    | none => .error peer.notConnected
    | some session =>
      match session.outbox.enqueue job with
      | .error e => .error e
      | .ok outbox => .ok { peer with session := some { session with outbox } }

/-- Takes the session of a peer away, to be closed. -/
def takeSession (peer : Peer) : Option Nat × Peer :=
  (peer.session.map (·.line), { peer with session := none })

/-- Ends a peer: whether it was live, and the line to close. -/
def teardown (peer : Peer) : Bool × Option Nat × Peer :=
  let (line, taken) := peer.takeSession
  (peer.state ≠ .disconnected, line,
    { taken with state := .disconnected, cancelled := true, attached := false })

/-- Puts a peer that waits for a line on one. -/
def install (peer : Peer) (line : Nat) : Option Peer :=
  if peer.state = .reconnecting then
    some { peer with state := .connected, session := some { line } }
  else none

/-- Puts a peer that waits for a line on one that the remote node opened. -/
def adopt (peer : Peer) (line : Nat) : Option Peer :=
  (peer.install line).map fun peer =>
    { peer with handoff := if peer.handoff.isSome then peer.handoff else some line }

/-- Counts a message that was read.  A goodbye is remembered. -/
def hear (peer : Peer) (message : Message) : Peer :=
  { peer with
    received := peer.received + 1
    closing := peer.closing || message.tag = MessageKind.disconnect.tag }

/-- Starts to wait for a new line: the line to close, and the peer; nothing if the peer was
ended. -/
def lose (peer : Peer) : Option (Option Nat × Peer) :=
  if peer.state = .disconnected then none
  else
    let (line, taken) := peer.takeSession
    some (line, { taken with state := .reconnecting })

/-- How often a peer waits for a line, in thirty-two bits: one slot more if the remote node is the
one that dials. -/
def slots? (peer : Peer) : Option Nat :=
  let count := match peer.direction with
    | .outbound => peer.policy.attempts
    | .inbound => peer.policy.attempts + 1
  if count < UInt32.size then some count else none

/-- Gives up waiting, unless a line has come. -/
def exhaust (peer : Peer) : Option Peer :=
  if peer.state = .reconnecting then some { peer with state := .disconnected } else none

/-- Picks up what an adopted session left. -/
def pickUp (peer : Peer) : Option Peer :=
  peer.handoff.map fun _ => { peer with handoff := none }

end Peer

end Overlay
