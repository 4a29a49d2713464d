import Overlay.AddressBook
import Overlay.Peer.Traffic
import Overlay.PeerStore

/-!
# Pools

A pool is the peers of a node in the order in which they joined, with what it
knows of others.  Questions to a pool are answered here; what changes it is
in the modules that follow.
-/

namespace Overlay

open Wire

/-- What a pool tells the application. -/
inductive PoolEvent
  | joined (peer : Nat) (endpoint : Endpoint)
  | left (peer : Nat) (endpoint : Endpoint)
  | message (peer : Nat) (endpoint : Endpoint) (message : Message)

structure Pool where
  policy : PoolPolicy := {}
  localKey : Bytes := []
  members : List Peer := []
  nextId : Nat := 1
  bootNode : Option Endpoint := none
  book : AddressBook := {}
  store : Option PeerStore := none
  /-- Whether an upkeep is under way. -/
  maintaining : Bool := false
  /-- Whether a list of peers is being worked through. -/
  receiving : Bool := false
  /-- What peers have told and the pool has not looked at. -/
  pending : List PeerEvent := []
  /-- Lists of peers that came in and are to be worked through. -/
  exchanges : List (List Endpoint) := []
  /-- What the application was told. -/
  told : List PoolEvent := []
  /-- The verdicts on messages with tickets. -/
  verdicts : List (Nat × Except NetError Unit) := []
  tickets : Nat := 0

/-- A pool and the network around it. -/
structure World where
  pool : Pool
  net : Net := {}

/-- How a node dials: the link that comes of it, and what has become of the world meanwhile. -/
abbrev Dial := Endpoint → World → Except NetError Link × World

namespace Pool

/-- A pool without peers. -/
def empty (policy : PoolPolicy) (localKey : Bytes) (store : Option PeerStore) : Pool :=
  { policy
    localKey
    bootNode := policy.bootnodes.head?
    book := { capacity := policy.bookCapacity }
    store }

/-- Whether the supervisor of a member was lost. -/
def panicked (pool : Pool) : Bool :=
  pool.members.any (·.watch = .panicked)

def member? (pool : Pool) (id : Nat) : Option Peer :=
  pool.members.find? (·.id == id)

def atEndpoint? (pool : Pool) (e : Endpoint) : Option Peer :=
  pool.members.find? (·.endpoint == e)

def withKey? (pool : Pool) (key : Bytes) : Option Peer :=
  pool.members.find? (·.identity.publicKey == key)

/-- The first member that fits what is given of an endpoint and a key.  If nothing is given, none
fits. -/
def find? (pool : Pool) (e : Option Endpoint) (key : Option Bytes) : Option Peer :=
  if e.isNone && key.isNone then none
  else
    pool.members.find? fun peer =>
      e.all (peer.endpoint == ·) && key.all (peer.identity.publicKey == ·)

def change (pool : Pool) (id : Nat) (f : Peer → Peer) : Pool :=
  { pool with members := pool.members.map fun peer => if peer.id = id then f peer else peer }

def endpoints (pool : Pool) : List Endpoint :=
  pool.members.map (·.endpoint)

/-- Whether an endpoint is the own one. -/
def isSelf (pool : Pool) (e : Endpoint) : Bool :=
  pool.policy.selfEndpoint = some e

/-- The endpoints of at most so many available members, one excepted. -/
def available (pool : Pool) (count : Nat) (exclude : Option Nat) : List Endpoint :=
  ((pool.members.filter fun peer => some peer.id ≠ exclude && peer.isAvailable).take count).map
    (·.endpoint)

/-- Whether a node that dials in may join. A known key is only in the way while its peer is
connected; otherwise the link will resume that peer. -/
def authenticate (pool : Pool) (identity : Identity) (e : Endpoint) : Except NetError Unit :=
  if identity.publicKey = pool.localKey then .error (.handshake .selfConnection)
  else
    match pool.withKey? identity.publicKey with
    | some peer =>
      if peer.isAvailable then
        .error (.duplicatePeer
          s!"key {identity.shortId} already connected as {peer.endpoint.display}")
      else .ok ()
    | none =>
      match pool.atEndpoint? e with
      | some _ => .error (.duplicatePeer s!"{e.display} already connected")
      | none => .ok ()

def tell (pool : Pool) (event : PoolEvent) : Pool :=
  { pool with told := pool.told ++ [event] }

/-- Takes down the verdicts that somebody waits for. -/
def judge (pool : Pool) (verdicts : List Verdict) : Pool :=
  { pool with
    verdicts := pool.verdicts ++
      verdicts.filterMap fun verdict => verdict.job.ticket.map fun t => (t, verdict.result) }

def newTicket (pool : Pool) : Nat × Pool :=
  (pool.tickets, { pool with tickets := pool.tickets + 1 })

def verdict? (pool : Pool) (ticket : Nat) : Option (Except NetError Unit) :=
  pool.verdicts.lookup ticket

/-- Queues a message on a member. -/
def send (pool : Pool) (peer : Peer) (job : Job) : Except NetError Pool :=
  (peer.enqueue job).map fun peer => pool.change peer.id fun _ => peer

/-- Queues a message on a member, with a ticket for its verdict. -/
def sendTicketed (pool : Pool) (peer : Peer) (message : Message) :
    Except NetError (Nat × Pool) :=
  let (ticket, pool) := pool.newTicket
  (pool.send peer { message, ticket := some ticket }).map fun pool => (ticket, pool)

end Pool

namespace World

/-- Writes what waits on the members, as far as their lines allow. -/
def write (world : World) : World :=
  let rec go : List Peer → Net → List Peer × Net × List Verdict
    | [], net => ([], net, [])
    | peer :: rest, net =>
      let (peer, net, verdicts) := peer.write net
      let (peers, net, more) := go rest net
      (peer :: peers, net, verdicts ++ more)
  let (members, net, verdicts) := go world.pool.members world.net
  { pool := { world.pool with members }.judge verdicts, net }

def withPool (world : World) (f : Pool → Pool) : World :=
  { world with pool := f world.pool }

def withNet (world : World) (f : Net → Net) : World :=
  { world with net := f world.net }

end World

end Overlay
