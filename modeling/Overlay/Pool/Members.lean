import Overlay.Pool.Basic

/-!
# Joining and leaving a pool
-/

namespace Overlay

open Wire

/-- What became of a link that was offered to a pool. -/
inductive Admission
  | added (peer : Nat)
  | alreadyConnected (peer : Nat)
  | resumed (peer : Nat)
  deriving DecidableEq, Repr

namespace Pool

/-- Starts a peer on a link and takes it in. -/
def enroll (pool : Pool) (link : Link) (now : Int64) : Pool :=
  let joined : Pool := { pool with
    members := pool.members ++ [Peer.start pool.nextId link pool.policy.link]
    nextId := pool.nextId + 1
    store := pool.store.map fun store => store.add link.endpoint now }
  joined.tell (.joined pool.nextId link.endpoint)

/-- Takes a member out, and out of the store if it is to be forgotten. -/
def expel (pool : Pool) (peer : Peer) (forget : Bool) : Pool :=
  let store : Option PeerStore :=
    if forget then pool.store.map fun store => store.remove peer.endpoint else pool.store
  let rest : Pool := { pool with members := pool.members.eraseP (·.id == peer.id), store }
  rest.tell (.left peer.id peer.endpoint)

end Pool

namespace World

/-- Refuses a link to a node that is a member. -/
def refuse (world : World) (link : Link) (peer : Peer) : Except NetError Admission × World :=
  (.ok (.alreadyConnected peer.id), world.withNet (·.close link.line))

/-- Starts a peer on a link.  A link to a peer that waits for one resumes that peer; any other
link to a member is closed. -/
def addPeer (world : World) (link : Link) : Except NetError Admission × World :=
  let pool := world.pool
  if link.identity.publicKey = pool.localKey then
    (.error (.handshake .addingSelf), world.withNet (·.close link.line))
  else
    match pool.withKey? link.identity.publicKey with
    | some peer =>
      match peer.adopt link.line with
      | some adopted =>
        (.ok (.resumed peer.id), world.withPool (·.change peer.id fun _ => adopted))
      | none => world.refuse link peer
    | none =>
      match pool.atEndpoint? link.endpoint with
      | some peer => world.refuse link peer
      | none =>
        (.ok (.added pool.nextId), { world with pool := pool.enroll link world.net.clock })

/-- Dials an endpoint that is no member's, and adds the peer. -/
def connect (dial : Dial) (world : World) (e : Endpoint) : Except NetError Admission × World :=
  match world.pool.atEndpoint? e with
  | some peer => (.ok (.alreadyConnected peer.id), world)
  | none =>
    match dial e world with
    | (.error cause, world) => (.error cause, world)
    | (.ok link, world) => world.addPeer link

/-- Takes a member out of the pool: with a goodbye or without, and forgotten or not. -/
def takePeer (world : World) (id : Nat) (goodbye forget : Bool) : Bool × World :=
  match world.pool.member? id with
  | none => (false, world)
  | some peer =>
    let (peer, net) :=
      if goodbye && peer.isAvailable then peer.sayGoodbye world.net else (peer, world.net)
    let (_, peer, net) := peer.disconnect net
    (true, { pool := world.pool.expel peer forget, net })

/-- Says goodbye to a member and forgets it. -/
def removePeer (world : World) (id : Nat) : Bool × World :=
  world.takePeer id true true

/-- Says goodbye to the member at an endpoint and forgets it. -/
def removeEndpoint (world : World) (e : Endpoint) : Bool × World :=
  match world.pool.atEndpoint? e with
  | none => (false, world)
  | some peer => world.removePeer peer.id

/-- Removes members one after the other: the ids of those that were there. -/
def removeAll (world : World) : List Nat → List Nat × World
  | [] => ([], world)
  | id :: rest =>
    let (removed, world) := world.removePeer id
    let (ids, world) := removeAll world rest
    (if removed then id :: ids else ids, world)

/-- Says goodbye to all members, and keeps them in the store for the next start. -/
def shutdown (world : World) : World :=
  (world.pool.members.map (·.id)).foldl (fun world id => (world.takePeer id true false).2) world

/-- Ends a member without taking it out of the pool: whether it was live. -/
def disconnect (world : World) (id : Nat) : Option (Bool × World) :=
  (world.pool.member? id).map fun peer =>
    let (wasLive, peer, net) := peer.disconnect world.net
    (wasLive, { pool := world.pool.change id fun _ => peer, net })

end World

end Overlay
