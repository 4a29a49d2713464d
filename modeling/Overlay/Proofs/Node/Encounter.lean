import Mathlib.Logic.Function.Basic
import Overlay.Handshake
import Overlay.Pool.Members

/-!
# Encounters

Two nodes dial each other.  On each of the two connections the node that dials
writes its handshake, the other one checks it, lets the node in or not and
answers, and then each node offers the connection to its pool.  A connection
that one end has closed is lost at the other end some time later.  All of this
happens in any order.
-/

namespace Overlay

inductive Side
  | left
  | right
  deriving DecidableEq

namespace Side

def other : Side → Side
  | .left => .right
  | .right => .left

@[simp] theorem other_other (side : Side) : side.other.other = side := by
  cases side <;> rfl

@[simp] theorem other_ne (side : Side) : side.other ≠ side := by
  cases side <;> exact nofun

@[simp] theorem ne_other (side : Side) : side ≠ side.other := by
  cases side <;> exact nofun

theorem eq_other_of_ne {side another : Side} (hne : side ≠ another) : side = another.other := by
  cases side <;> cases another <;> first | rfl | exact absurd rfl hne

theorem eq_or_eq_other (side another : Side) : side = another ∨ side = another.other := by
  by_cases hsame : side = another
  · exact Or.inl hsame
  · exact Or.inr (eq_other_of_ne hsame)

end Side

structure Party where
  handshaker : Handshaker
  /-- The host at which the other node sees it. -/
  host : String
  /-- Where it dials the other node. -/
  target : Endpoint
  /-- When it builds the handshake with which it dials. -/
  greetsAt : Int64
  /-- When it builds the handshake with which it answers. -/
  answersAt : Int64
  world : World

/-- How far a connection has come. -/
inductive Passage
  | unused
  -- the node that was to dial already had a member at the endpoint
  | spared
  -- the handshake of the node that dials is on its way
  | greeted
  -- the other node closed the connection without an answer
  | turnedAway
  -- the other node let the node in and answered
  | answered
  deriving DecidableEq

structure Connection where
  passage : Passage := .unused
  /-- The number of its line at each node. -/
  line : Side → Nat := fun _ => 0
  /-- What became of it at each node. -/
  outcome : Side → Option (Except NetError Admission) := fun _ => none

/-- Two nodes and the two connections between them, each named for the node that dials. -/
structure Encounter where
  party : Side → Party
  connection : Side → Connection

namespace Encounter

def world (e : Encounter) (side : Side) : World :=
  (e.party side).world

def pool (e : Encounter) (side : Side) : Pool :=
  (e.world side).pool

def key (e : Encounter) (side : Side) : Bytes :=
  (e.party side).handshaker.key.publicKey

def line (e : Encounter) (side dialer : Side) : Nat :=
  (e.connection dialer).line side

/-- Whether a node has closed its end of a connection. -/
def hasShut (e : Encounter) (side dialer : Side) : Bool :=
  !((e.world side).net.line (e.line side dialer)).nearOpen

/-- Lets something happen to the world of a node. -/
def act (e : Encounter) (side : Side) (f : World → World) : Encounter :=
  let party := e.party side
  { e with party := Function.update e.party side { party with world := f party.world } }

/-- Lets something happen to a connection. -/
def pass (e : Encounter) (dialer : Side) (f : Connection → Connection) : Encounter :=
  { e with connection := Function.update e.connection dialer (f (e.connection dialer)) }

def dial (e : Encounter) (dialer : Side) : Encounter where
  party := fun side =>
    let party := e.party side
    { party with world := party.world.withNet (·.newLine.2) }
  connection := Function.update e.connection dialer { e.connection dialer with
    passage := .greeted
    line := fun side => (e.world side).net.newLine.1 }

def greeting (e : Encounter) (dialer : Side) : Handshake :=
  let party := e.party dialer
  party.handshaker.build party.greetsAt

def answer (e : Encounter) (dialer : Side) : Handshake :=
  let party := e.party dialer.other
  party.handshaker.build party.answersAt

/-- The endpoint for which the other node takes the one that dials. -/
def origin (e : Encounter) (dialer : Side) (identity : Identity) : Endpoint :=
  ⟨(e.party dialer).host, identity.port⟩

/-- Whom the other node lets in. -/
def admission (e : Encounter) (dialer : Side) : Except NetError Identity :=
  match (e.party dialer.other).handshaker.verify (e.greeting dialer) with
  | .error cause => .error cause
  | .ok identity =>
    ((e.pool dialer.other).authenticate identity (e.origin dialer identity)).map fun _ => identity

/-- The link that the other node has on a connection. -/
def inbound (e : Encounter) (dialer : Side) (identity : Identity) : Link where
  line := e.line dialer.other dialer
  identity
  endpoint := e.origin dialer identity
  direction := .inbound

/-- The link that the node that dialed has on a connection. -/
def outbound (e : Encounter) (dialer : Side) (identity : Identity) : Link where
  line := e.line dialer dialer
  identity
  endpoint := (e.party dialer).target
  direction := .outbound

/-- Takes down what became of a connection at a node. -/
def settle (e : Encounter) (side dialer : Side) (result : Except NetError Admission) : Encounter :=
  e.pass dialer fun connection =>
    { connection with outcome := Function.update connection.outcome side (some result) }

/-- Offers a link on a connection to the pool of a node. -/
def offer (e : Encounter) (side dialer : Side) (link : Link) : Encounter :=
  let (result, world) := (e.world side).addPeer link
  (e.act side fun _ => world).settle side dialer result

inductive Step : Encounter → Encounter → Prop
  -- a node does not dial, because it has a member at the endpoint
  | spare {e : Encounter} {dialer : Side} {peer : Peer}
      (hpassage : (e.connection dialer).passage = .unused)
      (hmember : (e.pool dialer).atEndpoint? (e.party dialer).target = some peer) :
      Step e (e.pass dialer ({ · with passage := .spared }))
  -- a node dials and writes its handshake
  | dial {e : Encounter} {dialer : Side}
      (hpassage : (e.connection dialer).passage = .unused)
      (hmember : (e.pool dialer).atEndpoint? (e.party dialer).target = none) :
      Step e (e.dial dialer)
  -- the other node does not let it in, and closes the connection
  | turnAway {e : Encounter} {dialer : Side} {cause : NetError}
      (hpassage : (e.connection dialer).passage = .greeted)
      (hadmission : e.admission dialer = .error cause) :
      Step e ((e.act dialer.other (·.withNet (·.close (e.line dialer.other dialer)))).pass dialer
        ({ · with passage := .turnedAway }))
  -- the other node lets it in, and answers
  | answer {e : Encounter} {dialer : Side} {identity : Identity}
      (hpassage : (e.connection dialer).passage = .greeted)
      (hadmission : e.admission dialer = .ok identity) :
      Step e (e.pass dialer ({ · with passage := .answered }))
  -- the other node adds the one that it let in
  | accept {e : Encounter} {dialer : Side} {identity : Identity}
      (hpassage : (e.connection dialer).passage = .answered)
      (houtcome : (e.connection dialer).outcome dialer.other = none)
      (hverify : (e.party dialer.other).handshaker.verify (e.greeting dialer) = .ok identity) :
      Step e (e.offer dialer.other dialer (e.inbound dialer identity))
  -- the node that dialed reads the answer and adds the other one
  | complete {e : Encounter} {dialer : Side} {identity : Identity}
      (hpassage : (e.connection dialer).passage = .answered)
      (houtcome : (e.connection dialer).outcome dialer = none)
      (hverify : (e.party dialer).handshaker.verify (e.answer dialer) = .ok identity) :
      Step e (e.offer dialer dialer (e.outbound dialer identity))
  -- the node that dialed does not believe the answer, and closes the connection
  | mistrust {e : Encounter} {dialer : Side} {cause : NetError}
      (hpassage : (e.connection dialer).passage = .answered)
      (houtcome : (e.connection dialer).outcome dialer = none)
      (hverify : (e.party dialer).handshaker.verify (e.answer dialer) = .error cause) :
      Step e ((e.act dialer (·.withNet (·.close (e.line dialer dialer)))).settle dialer dialer
        (.error cause))
  -- the node that dialed finds the connection closed instead of an answer
  | miss {e : Encounter} {dialer : Side}
      (hpassage : (e.connection dialer).passage = .turnedAway)
      (houtcome : (e.connection dialer).outcome dialer = none) :
      Step e ((e.act dialer (·.withNet (·.close (e.line dialer dialer)))).settle dialer dialer
        (.error Wire.IoFault.endOfStream.toError))
  -- a node finds out that the other one closed the connection on which it has its session
  | deliver {e : Encounter} {side dialer : Side} {peer lost : Peer} {stale : Option Nat}
      (hpassage : (e.connection dialer).passage = .answered)
      (hshut : e.hasShut side.other dialer = true)
      (hpeer : (e.pool side).withKey? (e.key side.other) = some peer)
      (hline : peer.session.map (·.line) = some (e.line side dialer))
      (hlose : peer.lose = some (stale, lost)) :
      Step e (e.act side fun world =>
        (world.withPool (·.change peer.id fun _ => lost)).withNet fun net => stale.elim net net.close)

/-- What an encounter leads to. -/
inductive Run (first : Encounter) : Encounter → Prop
  | refl : Run first first
  | step {e next : Encounter} (hrun : Run first e) (hstep : Step e next) : Run first next

/-- Two nodes that have not met: their keys differ and their versions do not, what they sign can be
verified, and no member of either pool has the key of the other node or one of the endpoints at
which it could be taken for a member. -/
structure Strangers (e : Encounter) : Prop where
  keys : e.key .left ≠ e.key .right
  versions : (e.party .left).handshaker.version = (e.party .right).handshaker.version
  greetings : ∀ side, (e.greeting side).isSigned = true
  answers : ∀ side, (e.answer side).isSigned = true
  localKeys : ∀ side, (e.pool side).localKey = e.key side
  ids : ∀ side, ∀ peer ∈ (e.pool side).members, peer.id < (e.pool side).nextId
  unknownKeys : ∀ side, ∀ peer ∈ (e.pool side).members, peer.identity.publicKey ≠ e.key side.other
  unknownTargets : ∀ side, ∀ peer ∈ (e.pool side).members, peer.endpoint ≠ (e.party side).target
  unknownOrigins : ∀ side, ∀ peer ∈ (e.pool side).members,
    peer.endpoint ≠ ⟨(e.party side.other).host, (e.party side.other).handshaker.port⟩
  unused : ∀ side, e.connection side = {}

/-- Both nodes are done with dialing and with accepting. -/
def IsFinished (e : Encounter) : Prop :=
  ∀ dialer,
    (e.connection dialer).passage = .spared ∨
      (e.connection dialer).passage = .turnedAway ∧ (e.connection dialer).outcome dialer ≠ none ∨
        (e.connection dialer).passage = .answered ∧
          ∀ side, (e.connection dialer).outcome side ≠ none

/-- A node holds a connection: it is that of the live session of its peer. -/
def Holds (e : Encounter) (side dialer : Side) : Prop :=
  (e.connection dialer).passage = .answered ∧
    ∃ peer, (e.pool side).withKey? (e.key side.other) = some peer ∧ peer.state = .connected ∧
      peer.session.map (·.line) = some (e.line side dialer)

/-- The nodes are connected by one connection, which both hold and neither has closed. -/
def Shared (e : Encounter) (dialer : Side) : Prop :=
  ∀ side, e.Holds side dialer ∧ e.hasShut side dialer = false ∧ ¬ e.Holds side dialer.other

/-- A node refused a connection because it had a peer for it. -/
def Refused (e : Encounter) (side dialer : Side) : Prop :=
  ∃ peer, (e.connection dialer).outcome side = some (.ok (.alreadyConnected peer))

end Encounter

end Overlay
