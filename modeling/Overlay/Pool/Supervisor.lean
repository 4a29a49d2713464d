import Overlay.Pool.Events

/-!
# Supervisors

Every peer has a supervisor, which forwards what its session reads and looks
for a new line when the old one is lost.  A peer that dialed dials again; one
that was dialed waits to be dialed, for one slot more.
-/

namespace Overlay

open Wire

/-- The wait between two dials, in milliseconds, from which on it outlasts everything else. -/
def patience : Nat := 10000

/-- How looking for a new line ended. -/
inductive Search
  | restored
  | cancelled
  | exhausted (cause : NetError)

namespace World

/-- Takes in what a peer tells. -/
def raise (world : World) (event : PeerEvent) : World :=
  world.withPool fun pool => { pool with pending := pool.pending ++ [event] }

/-- Replaces a member. -/
def put (world : World) (peer : Peer) : World :=
  world.withPool (·.change peer.id fun _ => peer)

/-- Tells the pool of a peer something, if it still listens. -/
def emit (world : World) (peer : Peer) (event : PeerEvent) : World :=
  if peer.attached then world.raise event else world

/-- Forwards messages until the session has nothing more to read: why it ended, if it did.  `fuel`
bounds the number of messages. -/
def pump (id : Nat) : Nat → World → Option NetError × World
  | 0, world => (none, world)
  | fuel + 1, world =>
    match world.pool.member? id with
    | none => (none, world)
    | some peer =>
      match peer.read world.net with
      | (.nothing, _, _) => (none, world)
      | (.ended cause, _, _) => (some cause, world)
      | (.message message, peer, net) =>
        let world := { world with net }.put (peer.hear message)
        pump id fuel (world.emit peer (.message id message))

/-- Picks up the line that came meanwhile; without one the peer was ended. -/
def handedOff (world : World) (id : Nat) : Search × World :=
  match (world.pool.member? id).bind (·.pickUp) with
  | some peer => (.restored, world.put peer)
  | none => (.cancelled, world)

/-- Goes on with a line that a dial has opened. -/
def redialed (world : World) (id : Nat) (link : Link) : Search × World :=
  match (world.pool.member? id).bind (·.install link.line) with
  | some peer => (.restored, world.put peer)
  | none => handedOff (world.withNet (·.close link.line)) id

/-- Looks for a new line in so many slots.  The last error counts if none is found. -/
def search (dial : Dial) (id : Nat) : Nat → NetError → World → Search × World
  | 0, last, world =>
    match (world.pool.member? id).bind (·.exhaust) with
    | some peer => (.exhausted last, world.put peer)
    | none => handedOff world id
  | slots + 1, last, world =>
    match world.pool.member? id with
    | none => (.cancelled, world)
    | some peer =>
      if peer.handoff.isSome then handedOff world id
      else if peer.cancelled then (.cancelled, world)
      else
        match peer.direction with
        | .inbound => search dial id slots last world
        | .outbound =>
          match dial peer.endpoint world with
          | (.error cause, world) => search dial id slots cause world
          | (.ok link, world) =>
            if link.identity.publicKey = peer.identity.publicKey then world.redialed id link
            else
              search dial id slots (.handshake .keyChanged) (world.withNet (·.close link.line))

/-- Ends a peer that is lost, and says so. -/
def abandon (world : World) (id : Nat) (cause : NetError) : World :=
  match world.pool.member? id with
  | none => world
  | some peer =>
    let (_, ended, net) := peer.disconnect world.net
    ({ world with net }.put { ended with watch := .ended }).emit peer (.unreachable id cause)

/-- Sets what the supervisor of a peer does. -/
def setWatch (world : World) (id : Nat) (watch : Watch) : World :=
  world.withPool (·.change id ({ · with watch }))

/-- Goes on after a search. -/
def settleSearch (id : Nat) : Search × World → World
  | (.restored, world) =>
    match world.pool.member? id with
    | none => world
    | some peer => (world.put { peer with watch := .pumping }).emit peer (.reconnected id)
  | (.cancelled, world) => world.setWatch id .ended
  | (.exhausted cause, world) => world.abandon id cause

/-- Looks for a new line for a peer that waits.  Long waits are left to others to end.  Slots that
cannot be counted are a panic, which leaves the peer as it is. -/
def await (dial : Dial) (world : World) (peer : Peer) : World :=
  match peer.slots? with
  | none => world.setWatch peer.id .panicked
  | some slots =>
    if patience ≤ peer.policy.delay && slots ≠ 0 then
      if peer.handoff.isSome then settleSearch peer.id (handedOff world peer.id)
      else if peer.cancelled then world.setWatch peer.id .ended
      else world.setWatch peer.id .waiting
    else settleSearch peer.id (search dial peer.id slots peer.notConnected world)

/-- Deals with the end of a session. -/
def sessionEnded (dial : Dial) (world : World) (peer : Peer) (cause : NetError) : World :=
  let peer := match cause with
    | .protocol _ => { peer with breaches := peer.breaches + 1 }
    | _ => peer
  let world := world.put peer
  if peer.state = .disconnected then world.setWatch peer.id .ended
  else if peer.closing then world.abandon peer.id cause
  else
    match peer.lose with
    | none => world.setWatch peer.id .ended
    | some (line, lost) =>
      await dial ({ world with net := line.elim world.net world.net.close }.put lost) lost

/-- Lets the supervisor of a peer work until it has to wait. -/
def supervise (dial : Dial) (world : World) (id : Nat) : World :=
  match world.pool.member? id with
  | none => world
  | some peer =>
    match peer.watch with
    | .ended | .panicked => world
    | .waiting => await dial world peer
    | .pumping =>
      let waiting := peer.session.elim 0 fun session =>
        (world.net.line session.line).arriving.length
      match pump id (waiting + 1) world with
      | (none, world) => world
      | (some cause, world) =>
        match world.pool.member? id with
        | none => world
        | some peer => sessionEnded dial world peer cause

/-- Lets the writers and then the supervisors of all members work until they have to wait. -/
def progress (dial : Dial) (world : World) : World :=
  let world := world.write
  (world.pool.members.map (·.id)).foldl (supervise dial) world

/-- Lets everything come to rest: peers, their events if the pool looks at them, and the lists of
peers that came in.  `rounds` bounds the causes and effects that follow each other.  The messages
that the pool looks at are counted. -/
def settle (dial : Dial) (handling : Bool) : Nat → World → Nat × World
  | 0, world => (0, world)
  | rounds + 1, world =>
    let world := progress dial world
    let (handled, world) :=
      if handling then (world.pool.pending.countP (·.isMessage), world.processEvents.2)
      else (0, world)
    let world := workExchanges dial world
    let (more, world) := settle dial handling rounds world
    (handled + more, world)

end World

end Overlay
