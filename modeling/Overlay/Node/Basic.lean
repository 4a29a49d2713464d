import Overlay.Node.Neighbour
import Overlay.Pool.Rehearsal
import Overlay.Pool.Sending
import Overlay.Settings

/-!
# Nodes

A node listens on a port, answers those who dial it, and keeps a pool of
peers.  It starts with the peers of its settings and those of its last run.
-/

namespace Overlay

open Wire

structure Node where
  settings : Settings
  key : Crypto.KeyPair
  host : String
  port : UInt16
  version : UInt32 := protocolVersion
  pool : Pool
  stopped : Bool := false

namespace Node

/-- What a node needs for its handshakes. -/
def handshaker (node : Node) : Handshaker :=
  { key := node.key, port := node.port, version := node.version }

def world (node : Node) (net : Net) : World :=
  { pool := node.pool, net }

/-- Lets something happen to the pool of a node. -/
def act {α : Type} (node : Node) (net : Net) (f : World → α × World) : α × Node × Net :=
  let (result, world) := f (node.world net)
  (result, { node with pool := world.pool }, world.net)

/-- Opens the store of peers, if there is to be one: the store, and the peers in it. -/
def openStore (settings : Settings) (files : Files) : Option PeerStore × List Endpoint × Files :=
  if !settings.persistPeers then (none, [], files)
  else
    match files.openStore settings.storePath with
    | .error _ => (none, [], files)
    | .ok (store, files) => (some store, store.endpoints.toOption.getD [], files)

/-- Prepares a node: settings are checked, a port is bound, and the store is opened.  The peers to
dial at the start are answered with it. -/
def prepare (settings : Settings) (key : Crypto.KeyPair) (files : Files) (taken : List UInt16)
    (free : UInt16) : Except NetError (Node × List Endpoint × Files) := do
  settings.validate
  let (host, port) ← Sockets.bind taken free settings.listenAddress
  let policy ← settings.poolPolicy port
  let (store, stored, files) := openStore settings files
  let initial ← settings.peerEndpoints
  let pool := Pool.empty policy key.publicKey store
  return ({ settings, key, host, port, pool }, initial ++ stored, files)

/-- Dials endpoints one after the other. -/
def dialAll (world : World) (endpoints : List Endpoint) : World :=
  endpoints.foldl (fun world e => (world.connect World.dial e).2) world

/-- Lets everything come to rest, as long as the node runs: how many messages it looked at. -/
def rest (node : Node) (net : Net) : Nat × Node × Net :=
  node.act net fun world => world.rest !node.stopped

/-- Lets a node that was prepared begin: the first upkeep, if it is not delayed, and the first
dials. -/
def launch (node : Node) (initial : List Endpoint) (net : Net) : Node × Net :=
  let (_, node, net) := node.act net fun world =>
    let world :=
      if node.settings.maintenanceDelay = 0 then (world.maintain World.dial).2 else world
    ((), dialAll world initial)
  (node.rest net).2

/-- Answers a dial from a host: the meeting on the side of the node, and the line if the caller was
let in. -/
def answer (node : Node) (net : Net) (host : String) (greeting : Bytes) :
    Meeting × Option Nat × Node × Net :=
  let admission (identity : Identity) : Except NetError Unit :=
    if node.stopped then .error .shutdown
    else node.pool.authenticate identity ⟨host, identity.port⟩
  let meeting := node.handshaker.respond admission net.clock (.ofBytes greeting) {}
  match meeting.result with
  | .error _ => (meeting, none, node, net)
  | .ok identity =>
    let (line, net) := net.newLine
    let link : Link := { line, identity, endpoint := ⟨host, identity.port⟩, direction := .inbound }
    let (_, node, net) := node.act net fun world => world.addPeer link
    (meeting, some line, node, net)

/-- Lets another node dial: whom it meets and on which line, unless it is rejected. -/
def call (node : Node) (net : Net) (host : String) (caller : Handshaker) :
    Option (Identity × Nat) × Node × Net :=
  let greeting := (caller.build net.clock).send {}
  let (meeting, line, node, net) := node.answer net host greeting.taken
  let met := (caller.initiate net.clock (.ofBytes meeting.sent) {}).result.toOption
  (met.bind fun identity => line.map fun line => (identity, line), node, net)

/-- Queues a message for one peer or, if none is named, for all. -/
def enqueue (node : Node) (peer : Option Nat) (message : Message) : Except NetError Node :=
  if node.stopped then .error .shutdown
  else
    match peer with
    | none => .ok { node with pool := (node.pool.broadcast message).2 }
    | some id =>
      match node.pool.member? id with
      | none => .ok node
      | some peer =>
        match node.pool.send peer { message } with
        | .error _ => .ok node
        | .ok pool => .ok { node with pool }

/-- Stops a node.  A node that was stopped stays as it is. -/
def stop (node : Node) (net : Net) : Node × Net :=
  if node.stopped then (node, net)
  else
    let (_, node, net) := { node with stopped := true }.act net fun world => ((), world.shutdown)
    (node, net)

/-- Keeps what a node has stored of its peers. -/
def persist (node : Node) (files : Files) : Files :=
  match node.pool.store with
  | none => files
  | some store => files.keepStore node.settings.storePath store

end Node

end Overlay
