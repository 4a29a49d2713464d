import Overlay.Pool.Upkeep
import Overlay.Text.Duration

/-!
# Sending to single members
-/

namespace Overlay

open Wire

namespace World

/-- Sends a message to a member, if there is one of that id. -/
def send (world : World) (id : Nat) (message : Message) : Option (Except NetError World) :=
  (world.pool.member? id).map fun peer =>
    (world.pool.send peer { message }).map fun pool => { world with pool }

/-- Sends a message to a member and asks for the verdict: its ticket. -/
def sendTicketed (world : World) (id : Nat) (message : Message) :
    Option (Except NetError (Nat × World)) :=
  (world.pool.member? id).map fun peer =>
    (world.pool.sendTicketed peer message).map fun (ticket, pool) =>
      (ticket, { world with pool })

/-- Sends a message to a member and waits for the verdict, so many milliseconds at most. -/
def sendAndWait (world : World) (id : Nat) (message : Message) (timeout : Nat) :
    Except NetError Unit × World :=
  match world.pool.member? id with
  | none => (.ok (), world)
  | some peer =>
    match world.pool.sendTicketed peer message with
    | .error e => (.error e, world)
    | .ok (ticket, pool) =>
      let world := { world with pool }.write
      match world.pool.verdict? ticket with
      | some result => (result, world)
      | none =>
        let limit := Text.duration timeout
        (.error (.timeout s!"write to {peer.endpoint.display} not confirmed within {limit}"), world)

end World

end Overlay
