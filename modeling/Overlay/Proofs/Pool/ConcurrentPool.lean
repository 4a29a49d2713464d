import Mathlib.Logic.Function.Basic
import Overlay.Proofs.Peer.Lifecycle
import Overlay.Proofs.Pool.Keeping

/-!
# Calls on a pool at the same time

Any number of calls on a pool are under way, each between two of its sections,
while the supervisors of the members go through theirs, nodes dial in, others
end members or let them write, and lines break.  The sections of all of them
come in any order.
-/

namespace Overlay

/-- A pool with the calls on it that are under way, and the supervisors of its members. -/
structure ConcurrentPool where
  world : World
  /-- Where the supervisor of the member of an id stands. -/
  stage : Nat → Stage := fun _ => .gone
  /-- The links whose far ends have proved who they are, newest first. -/
  links : List Link := []
  calls : List (Procedure Report) := []
  /-- What came back of the calls that have ended, newest first. -/
  reports : List Report := []

namespace ConcurrentPool

/-- A pool without peers, of which nothing was asked. -/
def start (policy : PoolPolicy) (localKey : Bytes) (store : Option PeerStore) (net : Net) :
    ConcurrentPool where
  world := { pool := .empty policy localKey store, net }

/-- Where the supervisors stand after a link was offered: that of a new member reads its line. -/
def posted (stage : Nat → Stage) (link : Link) : Except NetError Admission → Nat → Stage
  | .ok (.added id) => Function.update stage id (.pumping link.line)
  | _ => stage

inductive Step : ConcurrentPool → ConcurrentPool → Prop
  -- a node has dialed in, and has proved who it is
  | arrive {s : ConcurrentPool} (link : Link) (hfresh : ∀ other ∈ s.links, other.line ≠ link.line) :
      Step s { s with links := link :: s.links }
  -- something is asked of the pool.  A link that is to be added has proved who it is
  | ask {s : ConcurrentPool} (task : Task) (hlink : ∀ link, task = .add link → link ∈ s.links) :
      Step s { s with calls := task.procedure :: s.calls }
  -- a call goes through a section
  | act {s : ConcurrentPool} {before behind : List (Procedure Report)} {f : World → World}
      {next : World → Procedure Report} (hcalls : s.calls = before ++ .act f next :: behind) :
      Step s { s with
        world := f s.world
        calls := before ++ next s.world :: behind }
  -- the dial of a call fails
  | missed {s : ConcurrentPool} {before behind : List (Procedure Report)} {e : Endpoint}
      {next : Except NetError Link → Procedure Report}
      (hcalls : s.calls = before ++ .dial e next :: behind) (cause : NetError) :
      Step s { s with calls := before ++ next (.error cause) :: behind }
  -- a node answers the dial of a call, and has proved who it is
  | answered {s : ConcurrentPool} {before behind : List (Procedure Report)} {e : Endpoint}
      {next : Except NetError Link → Procedure Report}
      (hcalls : s.calls = before ++ .dial e next :: behind) (link : Link)
      (hfresh : ∀ other ∈ s.links, other.line ≠ link.line) :
      Step s { s with
        links := link :: s.links
        calls := before ++ next (.ok link) :: behind }
  -- a call offers a link
  | offer {s : ConcurrentPool} {before behind : List (Procedure Report)} {link : Link}
      {next : Except NetError Admission → Procedure Report}
      (hcalls : s.calls = before ++ .offer link next :: behind) :
      Step s { s with
        world := (s.world.addPeer link).2
        stage := posted s.stage link (s.world.addPeer link).1
        calls := before ++ next (s.world.addPeer link).1 :: behind }
  -- a call offers a link on which no peer can be started.  The id was drawn before
  | unstarted {s : ConcurrentPool} {before behind : List (Procedure Report)} {link : Link}
      {next : Except NetError Admission → Procedure Report}
      (hcalls : s.calls = before ++ .offer link next :: behind) {id : Nat}
      (hadded : (s.world.addPeer link).1 = .ok (.added id)) (cause : NetError) :
      Step s { s with
        world := s.world.withPool fun pool => { pool with nextId := pool.nextId + 1 }
        calls := before ++ next (.error cause) :: behind }
  -- a call offers a link on which no session can be opened
  | unopened {s : ConcurrentPool} {before behind : List (Procedure Report)} {link : Link}
      {next : Except NetError Admission → Procedure Report}
      (hcalls : s.calls = before ++ .offer link next :: behind) {id : Nat}
      (hresumed : (s.world.addPeer link).1 = .ok (.resumed id)) (cause : NetError) :
      Step s { s with calls := before ++ next (.error cause) :: behind }
  -- a call ends
  | finish {s : ConcurrentPool} {before behind : List (Procedure Report)} {report : Report}
      (hcalls : s.calls = before ++ .done report :: behind) :
      Step s { s with
        calls := before ++ behind
        reports := report :: s.reports }
  -- the supervisor of a member goes through a section in which no line is new
  | supervise {s : ConcurrentPool} {peer : Peer} {next : Life}
      (hmember : peer ∈ s.world.pool.members)
      (hsupervised : Life.Supervised { peer, stage := s.stage peer.id, offered := [] } next)
      (hoffered : next.offered = []) :
      Step s { s with
        world := s.world.put next.peer
        stage := Function.update s.stage peer.id next.stage }
  -- the node of a member answers the dial of its supervisor
  | redialed {s : ConcurrentPool} {peer : Peer} (hmember : peer ∈ s.world.pool.members)
      {slots : Nat} {last : NetError} (hstage : s.stage peer.id = .dialing slots last) (link : Link)
      (hfresh : ∀ other ∈ s.links, other.line ≠ link.line)
      (hkey : link.identity.publicKey = peer.identity.publicKey) :
      Step s { s with
        stage := Function.update s.stage peer.id (.dialed slots last link.line)
        links := link :: s.links }
  -- another node answers the dial of a supervisor
  | mistaken {s : ConcurrentPool} {peer : Peer} (hmember : peer ∈ s.world.pool.members)
      {slots : Nat} {last : NetError} (hstage : s.stage peer.id = .dialing slots last) (link : Link)
      (hfresh : ∀ other ∈ s.links, other.line ≠ link.line)
      (hkey : link.identity.publicKey ≠ peer.identity.publicKey) :
      Step s { s with
        stage := Function.update s.stage peer.id (.waiting slots (.handshake .keyChanged))
        links := link :: s.links }
  -- others let a member write and read, or end it
  | interpose {s : ConcurrentPool} {life next : Life} (hmember : life.peer ∈ s.world.pool.members)
      (hstage : life.stage = s.stage life.peer.id) (hmeanwhile : Life.Meanwhile life next)
      (hoffered : next.offered = life.offered) :
      Step s { s with world := s.world.put next.peer }
  -- something happens on the lines
  | onLines {s : ConcurrentPool} (net : Net) :
      Step s { s with world := s.world.withNet fun _ => net }

/-- What the steps of all of them lead to. -/
inductive Run (first : ConcurrentPool) : ConcurrentPool → Prop
  | refl : Run first first
  | step {s next : ConcurrentPool} (hrun : Run first s) (hstep : Step s next) : Run first next

end ConcurrentPool

end Overlay
