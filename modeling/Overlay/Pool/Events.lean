import Overlay.Pool.Upkeep

/-!
# What peers tell their pool
-/

namespace Overlay

open Wire

namespace World

/-- Answers a request for peers. -/
def answerRequest (world : World) (peer : Peer) (message : Message) : World :=
  match PeerRequest.ofMessage message with
  | .error _ => world
  | .ok request =>
    let reply : PeerList := ⟨world.pool.available request.count.toNat (some peer.id)⟩
    match world.pool.send peer { message := reply.toMessage } with
    | .error _ => world
    | .ok pool => { world with pool }

/-- Takes in a list of peers, to be worked through beside other events. -/
def acceptList (world : World) (message : Message) : World :=
  match PeerList.ofMessage message with
  | .error _ => world
  | .ok list =>
    if world.pool.maintaining then world
    else world.withPool fun pool => { pool with exchanges := pool.exchanges ++ [list.peers] }

/-- Handles a message of a member.  Messages of others are dropped. -/
def handleMessage (world : World) (id : Nat) (message : Message) : World :=
  match world.pool.member? id with
  | none => world
  | some peer =>
    match MessageKind.ofTag? message.tag with
    | some .requestPeers => world.answerRequest peer message
    | some .returnPeers => world.acceptList message
    | some .disconnect => (world.takePeer id false true).2
    | some .handshake => world
    | _ => world.withPool (·.tell (.message id peer.endpoint message))

/-- Handles one event of a peer.  A peer that is lost is forgotten. -/
def handle (world : World) : PeerEvent → World
  | .message id message => world.handleMessage id message
  | .reconnected _ => world
  | .unreachable id _ =>
    let world := match world.pool.member? id with
      | none => world
      | some peer => world.withPool (·.forget peer.endpoint)
    (world.takePeer id false true).2

/-- Handles what peers have told, and counts it. -/
def processEvents (world : World) : Nat × World :=
  let events := world.pool.pending
  let world := world.withPool ({ · with pending := [] })
  (events.length, events.foldl handle world)

/-- Works through the lists of peers that came in. -/
def workExchanges (dial : Dial) (world : World) : World :=
  let lists := world.pool.exchanges
  let world := world.withPool ({ · with exchanges := [] })
  lists.foldl (fun world endpoints => (receivePeers dial world endpoints).2) world

end World

end Overlay
