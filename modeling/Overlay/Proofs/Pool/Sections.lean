import Overlay.Proofs.Pool.Keeping

/-!
# A call that goes through its next section

What comes between two sections of a call is up to others.  A section is one
step of one call: it changes the world, and leaves what the call still has to do.
-/

namespace Overlay

namespace Procedure

variable {α : Type} {world after : World} {call next : Procedure α}

/-- The next section of a call, or its next dial. -/
inductive Section (world : World) : Procedure α → Procedure α → World → Prop
  | act {f : World → World} {next : World → Procedure α} :
      Section world (.act f next) (next world) (f world)
  | offer {link : Link} {next : Except NetError Admission → Procedure α} :
      Section world (.offer link next) (next (world.addPeer link).1) (world.addPeer link).2
  -- no peer can be started on the link.  The id was drawn before
  | unstarted {link : Link} {next : Except NetError Admission → Procedure α} {id : Nat}
      (hadded : (world.addPeer link).1 = .ok (.added id)) (cause : NetError) :
      Section world (.offer link next) (next (.error cause))
        (world.withPool fun pool => { pool with nextId := pool.nextId + 1 })
  -- no session can be opened on the link
  | unopened {link : Link} {next : Except NetError Admission → Procedure α} {id : Nat}
      (hresumed : (world.addPeer link).1 = .ok (.resumed id)) (cause : NetError) :
      Section world (.offer link next) (next (.error cause)) world
  -- a dial ends as it will
  | dial {e : Endpoint} {next : Except NetError Link → Procedure α}
      (outcome : Except NetError Link) : Section world (.dial e next) (next outcome) world

/-- The next section of a call, if peers can be started and nobody answers a dial. -/
def goOn (world : World) : Procedure α → Procedure α × World
  | .done result => (.done result, world)
  | .act f next => (next world, f world)
  | .offer link next => (next (world.addPeer link).1, (world.addPeer link).2)
  | .dial _ next => (next (.error (.io "refused")), world)

theorem section_goOn (hmore : ∀ result, call ≠ .done result) :
    Section world call (call.goOn world).1 (call.goOn world).2 := by
  cases call with
  | done result => exact absurd rfl (hmore result)
  | act f next => exact .act
  | offer link next => exact .offer
  | dial e next => exact .dial _

end Procedure

end Overlay
