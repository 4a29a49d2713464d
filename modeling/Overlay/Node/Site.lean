import Overlay.Node.Basic

/-!
# Sites

A site is a machine with its files and its network: the node that runs on it,
and the neighbours that listen there.
-/

namespace Overlay

/-- A machine with at most one node of interest. -/
structure Site where
  files : Files := {}
  net : Net := {}
  node : Option Node := none
  neighbours : List (Endpoint × Neighbour) := []

/-- What a neighbour saw of a dial. -/
inductive Sighting
  /-- Who dialed, if that was proved, and whether it was let in. -/
  | caller (key : Option Bytes) (accepted : Bool)
  /-- Some frame. -/
  | frame

namespace Site

/-- The port that is free. -/
def freePort : UInt16 := 61000

/-- The ports that nodes of the site listen on. -/
def taken (site : Site) : List UInt16 :=
  (site.node.toList.filter fun node => !node.stopped).map (·.port)

/-- The network as a node finds it: neighbours answer, and nobody else does. -/
def surround (site : Site) (caller : Handshaker) : Net :=
  let plans := site.neighbours.map fun (e, neighbour) =>
    (e.display, [neighbour.plan caller e site.net.clock])
  { site.net with plans, usual := fun e => { outcome := .error (Sockets.dialFault e) } }

def start (site : Site) (settings : Settings) (key : Crypto.KeyPair) : Except NetError Site := do
  let (node, initial, files) ← Node.prepare settings key site.files site.taken freePort
  let (node, net) := node.launch initial (site.surround node.handshaker)
  return { site with files, net, node := some node }

/-- Lets something happen to the node of a site, and everything come to rest. -/
def act {α : Type} (site : Site) (node : Node) (f : World → α × World) : α × Nat × Site :=
  let (result, node, net) := node.act site.net f
  let (handled, node, net) := node.rest net
  (result, handled, { site with node := some node, net })

/-- Puts a node on a site and lets everything come to rest. -/
def rest (site : Site) (node : Node) : Site :=
  (site.act node fun world => ((), world)).2.2

def stop (site : Site) : Site :=
  match site.node with
  | none => site
  | some node =>
    let (node, net) := node.stop site.net
    { site with node := some node, net, files := node.persist site.files }

/-- Stops the node of a site and does away with it. -/
def drop (site : Site) : Site :=
  { site.stop with node := none }

/-- Starts a second node like one that is there. -/
def startSecond (site : Site) (node : Node) : Except NetError Unit :=
  let settings : Settings := { node.settings with listenPort := node.port }
  (Node.prepare settings node.key site.files site.taken freePort).map fun _ => ()

/-- Does away with the node of a site as it is: nobody is told, and its files stay. -/
def kill (site : Site) : Site :=
  match site.node with
  | none => site
  | some node => { site with node := none, net := {}, files := node.persist site.files }

/-- Forgets what the node of a site has told of its peers. -/
def hush (site : Site) : Site :=
  { site with node := site.node.map fun node => { node with pool := { node.pool with told := [] } } }

/-- The endpoints that the node of a site has stored. -/
def stored (site : Site) (settings : Settings) : List Endpoint :=
  match site.files.find settings.storePath with
  | .ok (.store store) => store.endpoints.toOption.getD []
  | _ => []

/-- What neighbours saw of the dials since somebody last looked, by their numbers. -/
def sightings (site : Site) (caller : Handshaker) : List (Nat × Sighting) :=
  site.net.dialed.filterMap fun e =>
    let n := site.neighbours.findIdx (·.1 == e)
    match site.neighbours[n]? with
    | some (_, .node self refusal) =>
      let meeting := Neighbour.answer self refusal caller site.net.clock
      some (n, .caller (meeting.consulted.map (·.publicKey)) meeting.result.isOk)
    | some (_, .raw _) => some (n, .frame)
    | _ => none

end Site

end Overlay
