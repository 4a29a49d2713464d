import Overlay.Pool.Supervisor

/-!
# Dials by plan

A dial by plan first lets happen what the plan says, which may be further
dials, and then ends as the plan says.
-/

namespace Overlay

open Wire

namespace World

/-- Offers a new line to the first peer. -/
def offerLine (world : World) : Nat × Bool × World :=
  let (line, net) := world.net.newLine
  let world := { world with net }
  match world.pool.members.head?.bind (·.adopt line) with
  | some peer => (line, true, world.put peer)
  | none => (line, false, world.withNet (·.close line))

/-- Lets a call happen, and takes down how it ended. -/
def perform (dial : Dial) (world : World) (call : Call) : World :=
  let (note, world) : Note × World :=
    match call with
    | .maintain =>
      let (report, world) := maintain dial world
      (.maintained report.isNone, world)
    | .receive endpoints =>
      let (count, world) := receivePeers dial world endpoints
      (.received count, world)
    | .message id message => (.message, world.handle (.message id message))
    | .flags => (.flags world.pool.maintaining world.pool.receiving, world)
    | .connect e =>
      let (result, world) := connect dial world e
      (.connected result.isOk, world)
    | .adopt =>
      let (line, adopted, world) := world.offerLine
      (.adopted line adopted, world)
    | .disconnect =>
      match world.pool.members.head?.bind fun peer => world.disconnect peer.id with
      | some (wasLive, world) => (.disconnected wasLive, world)
      | none => (.disconnected false, world)
    | .state =>
      (.state ((world.pool.members.head?.map (·.state)).getD .disconnected), world)
  world.withNet (·.note note)

/-- Dials by plan; `depth` bounds the dials that happen within dials. -/
def dialByPlan : Nat → Dial
  | 0, e, world => (.error (.io s!"{e.display} refused"), world)
  | depth + 1, e, world =>
    let (plan, net) := world.net.nextPlan e
    let world := plan.calls.foldl (perform (dialByPlan depth)) { world with net }
    match plan.outcome with
    | .error cause => (.error cause, world)
    | .ok callee =>
      let (link, net) := world.net.answer e callee
      (.ok link, { world with net })

/-- The bound on dials within dials. -/
def dialDepth : Nat := 64

def dial : Dial :=
  dialByPlan dialDepth

/-- The bound on causes and effects that follow each other. -/
def restRounds : Nat := 16

/-- Lets everything come to rest; events that peers raise are handled if `handling`. -/
def rest (world : World) (handling : Bool) : Nat × World :=
  settle dial handling restRounds world

end World

end Overlay
