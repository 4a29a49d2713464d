import Overlay.Endpoint
import Overlay.Identity
import Overlay.Wire.Outbox
import Overlay.Wire.Inbox

/-!
# The network around a node

A line is a connection seen from outside: what travels on it in each
direction, and which of its ends are open.  Dials are answered by plans, which
say how each dial of an endpoint ends and what happens while it lasts.
-/

namespace Overlay

open Wire

inductive Direction
  | inbound
  | outbound
  deriving DecidableEq, Repr

def Direction.name : Direction → String
  | .inbound => "Inbound"
  | .outbound => "Outbound"

/-- A line whose far end has proved who it is. -/
structure Link where
  line : Nat
  identity : Identity
  endpoint : Endpoint
  direction : Direction
  deriving DecidableEq

inductive PeerState
  | disconnected
  | connecting
  | connected
  | reconnecting
  deriving DecidableEq, Repr

def PeerState.name : PeerState → String
  | .disconnected => "Disconnected"
  | .connecting => "Connecting"
  | .connected => "Connected"
  | .reconnecting => "Reconnecting"

/-- What happens to a pool, or to its first peer, while a dial is under way. -/
inductive Call
  | maintain
  | receive (endpoints : List Endpoint)
  | message (peer : Nat) (message : Message)
  | flags
  | connect (endpoint : Endpoint)
  | adopt
  | disconnect
  | state

/-- How such a call ended. -/
inductive Note
  | maintained (skipped : Bool)
  | received (count : Nat)
  | message
  | flags (maintaining receiving : Bool)
  | connected (succeeded : Bool)
  | adopted (line : Nat) (result : Bool)
  | disconnected (wasLive : Bool)
  | state (state : PeerState)

/-- The node that answers a dial, as far as it is not what one expects of the endpoint. -/
structure Callee where
  key : Option Bytes := none
  endpoint : Option Endpoint := none
  direction : Direction := .outbound
  port : Option UInt16 := none
  version : UInt32 := 1

/-- A dial: what happens meanwhile, and how it ends. -/
structure Plan where
  calls : List Call := []
  outcome : Except NetError Callee := .ok {}

/-- A connection seen from outside. -/
structure Line where
  /-- What the far end sent and the near end has not read. -/
  arriving : Bytes := []
  /-- What the near end wrote and nobody has looked at. -/
  written : Payload := ByteArray.empty
  nearOpen : Bool := true
  farOpen : Bool := true
  /-- Writes of the near end fail. -/
  stalled : Bool := false
  /-- The far end does not read, and the line holds so many bytes. -/
  paused : Option Nat := none
  /-- Its end has been noticed. -/
  noticed : Bool := false

namespace Line

/-- How many bytes a line holds that nobody reads. -/
def capacity : Nat := 200000

/-- The fault of a write that nobody can take. -/
def brokenPipe : IoFault := ⟨.other, "Broken pipe (os error 32)"⟩

def isOpen (line : Line) : Bool :=
  line.nearOpen && line.farOpen

def sink (line : Line) : Sink :=
  if line.stalled || !line.nearOpen then { writes := [.fault brokenPipe] } else {}

/-- Whether so many bytes have room on a line. -/
def hasRoom (line : Line) (size : Nat) : Bool :=
  match line.paused with
  | none => true
  | some held => held + size ≤ capacity

/-- A line with more bytes written on it. -/
def carry (line : Line) (bytes : Bytes) : Line :=
  { line with
    written := bytes.foldl ByteArray.push line.written
    paused := line.paused.map (· + bytes.length) }

end Line

/-- What surrounds a node: lines by number, plans for dials, what was dialed, and a clock. -/
structure Net where
  lines : List Line := []
  /-- The plans for endpoints that have any. -/
  plans : List (String × List Plan) := []
  /-- The plan for every other endpoint. -/
  usual : Endpoint → Plan := fun _ => {}
  dialed : List Endpoint := []
  notes : List Note := []
  clock : Int64 := 1

namespace Net

def line (net : Net) (n : Nat) : Line :=
  (net.lines[n]?).getD { nearOpen := false, farOpen := false }

def change (net : Net) (n : Nat) (f : Line → Line) : Net :=
  { net with lines := net.lines.modify n f }

/-- Opens a line: its number is the count of those before it. -/
def newLine (net : Net) : Nat × Net :=
  (net.lines.length, { net with lines := net.lines ++ [{}] })

def close (net : Net) (n : Nat) : Net :=
  net.change n fun line => { line with nearOpen := false }

/-- Sends bytes from the far end of a line. -/
def arrive (net : Net) (n : Nat) (bytes : Bytes) : Net :=
  net.change n fun line =>
    if line.isOpen then { line with arriving := line.arriving ++ bytes } else line

def hangUp (net : Net) (n : Nat) : Net :=
  net.change n fun line => { line with farOpen := false }

def stall (net : Net) (n : Nat) : Net :=
  net.change n fun line => { line with stalled := true }

def pause (net : Net) (n : Nat) : Net :=
  net.change n fun line => { line with paused := some 0 }

def resume (net : Net) (n : Nat) : Net :=
  net.change n fun line => { line with paused := none }

/-- Whether the far end of some line does not read. -/
def isPaused (net : Net) : Bool :=
  net.lines.any fun line => line.paused.isSome

/-- What the far ends have noticed since somebody last looked: the lines on which something was
written or whose end has come. -/
def news (net : Net) : List (Nat × Payload × Bool) × Net :=
  let seen := net.lines.zipIdx.map fun (line, n) =>
    (n, line.written, !line.isOpen && !line.stalled && !line.noticed)
  let lines := net.lines.map fun line =>
    { line with written := ByteArray.empty, noticed := !line.isOpen && !line.stalled }
  (seen.filter fun (_, written, ended) => written.size ≠ 0 || ended, { net with lines })

/-- Takes down what a call that came meanwhile ended with. -/
def note (net : Net) (n : Note) : Net :=
  { net with notes := net.notes ++ [n] }

/-- The next plan for an endpoint.  The last plan for it stays. -/
def nextPlan (net : Net) (e : Endpoint) : Plan × Net :=
  let net := { net with dialed := net.dialed ++ [e] }
  match net.plans.lookup e.display with
  | some (plan :: next :: rest) =>
    (plan, { net with
      plans := net.plans.map fun entry =>
        if entry.1 = e.display then (entry.1, next :: rest) else entry })
  | some [plan] => (plan, net)
  | _ => (net.usual e, net)

def answer (net : Net) (e : Endpoint) (callee : Callee) : Link × Net :=
  let (line, net) := net.newLine
  let key := callee.key.getD (Bytes.ofText ("key-" ++ e.display))
  ({ line
     identity := ⟨key, callee.port.getD e.port, callee.version⟩
     endpoint := callee.endpoint.getD e
     direction := callee.direction }, net)

end Net

end Overlay
