import Overlay.Pool.Members

/-!
# Upkeep of a pool

Finding peers when there are none, asking for more when there are too few, and
letting the oldest go when there are too many.
-/

namespace Overlay

open Wire

/-- What an upkeep did. -/
structure UpkeepReport where
  bootstrapped : Option Endpoint := none
  releasedBootNode : Bool := false
  requested : Nat := 0
  removed : List Nat := []
  duplicates : Nat := 0

namespace Pool

def broadcast (pool : Pool) (message : Message) : Bool × Pool :=
  let queue (pool : Pool) (peer : Peer) : Pool :=
    match pool.send peer { message } with
    | .ok pool => pool
    | .error _ => pool
  (pool.members ≠ [], pool.members.foldl queue pool)

/-- Queues a message with a ticket on every member that takes it. -/
def broadcastTicketed (pool : Pool) (message : Message) : List Nat × Pool :=
  let queue (sent : List Nat × Pool) (peer : Peer) : List Nat × Pool :=
    match sent.2.sendTicketed peer message with
    | .ok (ticket, pool) => (sent.1 ++ [ticket], pool)
    | .error _ => sent
  pool.members.foldl queue ([], pool)

/-- The endpoints to start from, each once and never the own one: the preferred one, the
configured ones, and those of the book. -/
def candidates (pool : Pool) : List Endpoint :=
  let all := pool.bootNode.toList ++ pool.policy.bootnodes ++ pool.book.entries
  all.foldl (fun found e => if e ∈ found || pool.isSelf e then found else found ++ [e]) []

/-- The members that share an endpoint or a key with an earlier one. -/
def duplicates (pool : Pool) : List Nat :=
  let sift (found : List Peer × List Nat) (peer : Peer) : List Peer × List Nat :=
    let known := found.1.any fun other =>
      other.endpoint == peer.endpoint || other.identity.publicKey == peer.identity.publicKey
    if known then (found.1, found.2 ++ [peer.id]) else (found.1 ++ [peer], found.2)
  (pool.members.foldl sift ([], [])).2

/-- Takes an endpoint out of the book. -/
def forget (pool : Pool) (e : Endpoint) : Pool :=
  { pool with book := pool.book.remove e }

end Pool

namespace World

/-- Sends a message to every member and counts those that it reached. -/
def broadcastAndWait (world : World) (message : Message) : Nat × World :=
  let (tickets, pool) := world.pool.broadcastTicketed message
  let world := { world with pool }.write
  let reached := tickets.countP fun ticket =>
    match world.pool.verdict? ticket with
    | some (.ok ()) => true
    | _ => false
  (reached, world)

/-- Dials endpoints in order until one answers.  One that does not answer leaves the book unless
it is configured. -/
def bootstrapFrom (dial : Dial) (world : World) : List Endpoint → Option Endpoint × World
  | [] => (none, world)
  | e :: rest =>
    match connect dial world e with
    | (.ok _, world) =>
      (some e, world.withPool fun pool =>
        if e ∈ pool.policy.bootnodes then { pool with bootNode := some e } else pool)
    | (.error _, world) =>
      bootstrapFrom dial
        (world.withPool fun pool => if e ∈ pool.policy.bootnodes then pool else pool.forget e) rest

/-- Finds a first peer. -/
def bootstrap (dial : Dial) (world : World) : Option Endpoint × World :=
  bootstrapFrom dial world world.pool.candidates

/-- Lets the preferred boot node go, if it is a member. -/
def releaseBootNode (world : World) : Bool × World :=
  match world.pool.bootNode with
  | none => (false, world)
  | some e => world.removeEndpoint e

/-- Removes later copies of members that share an endpoint or a key. -/
def removeDuplicates (world : World) : Nat × World :=
  let (removed, world) := world.removeAll world.pool.duplicates
  (removed.length, world)

/-- The first part of an upkeep: a first peer is found, or the boot node is let go. -/
def anchor (dial : Dial) (world : World) (report : UpkeepReport) : UpkeepReport × World :=
  if world.pool.members = [] then
    let (bootstrapped, world) := bootstrap dial world
    ({ report with bootstrapped }, world)
  else if world.pool.policy.target / 2 < world.pool.members.length then
    let (releasedBootNode, world) := world.releaseBootNode
    ({ report with releasedBootNode }, world)
  else (report, world)

/-- The second part of an upkeep: more peers are asked for, or the oldest are let go.  Answers
must not be ignored, so the upkeep counts as over before peers are asked. -/
def balance (world : World) (report : UpkeepReport) : UpkeepReport × World :=
  let count := world.pool.members.length
  let target := world.pool.policy.target
  if count < target then
    let world := world.withPool ({ · with maintaining := false })
    let (_, world) := world.broadcastAndWait (PeerRequest.ofCount (target - count)).toMessage
    ({ report with requested := target - count }, world)
  else
    let oldest := (world.pool.members.take (count - target)).map (·.id)
    let (removed, world) := world.removeAll oldest
    ({ report with removed }, world)

/-- One upkeep, unless one is under way or a list of peers is being worked through. -/
def maintain (dial : Dial) (world : World) : Option UpkeepReport × World :=
  if world.pool.receiving || world.pool.maintaining then (none, world)
  else
    let (report, world) := anchor dial (world.withPool ({ · with maintaining := true })) {}
    let (report, world) := world.balance report
    let (duplicates, world) := world.removeDuplicates
    (some { report with duplicates }, world.withPool ({ · with maintaining := false }))

/-- Dials endpoints that were heard of, unless they are known, and counts the new peers. -/
def joinAll (dial : Dial) (world : World) : List Endpoint → Nat × World
  | [] => (0, world)
  | e :: rest =>
    if world.pool.isSelf e || (world.pool.atEndpoint? e).isSome then joinAll dial world rest
    else
      let world := world.withPool fun pool => { pool with book := pool.book.learn e }
      let (result, world) := connect dial world e
      let (count, world) := joinAll dial world rest
      match result with
      | .ok (.added _) => (count + 1, world)
      | _ => (count, world)

/-- Works through a list of peers, unless an upkeep or another list is under way. -/
def receivePeers (dial : Dial) (world : World) (endpoints : List Endpoint) : Nat × World :=
  if world.pool.maintaining || world.pool.receiving then (0, world)
  else
    let (count, world) :=
      joinAll dial (world.withPool ({ · with receiving := true })) endpoints
    (count, world.withPool ({ · with receiving := false }))

end World

end Overlay
