import Overlay.Proofs.Peer.Sections

/-!
# The life of a peer

A peer lives with its supervisor, with calls that offer it lines, and with
calls that end it.  Each goes from one section to the next, and the sections of
all of them come in any order.  `Supervised` are the sections of the
supervisor, and `Meanwhile` are those of the calls.

A wait for a slot may elapse whatever has come meanwhile, a dial may end in any
way, and a session may fail to open on any line.
-/

namespace Overlay

open Wire

/-- Where the supervisor of a peer stands between two of its sections. -/
inductive Stage
  -- it forwards what is read on a line
  | pumping (line : Nat)
  -- the reading has ended, and it looks whether the peer was ended too
  | stopped (line : Nat) (cause : NetError)
  -- it looks whether the remote node said goodbye
  | parting (line : Nat) (cause : NetError)
  -- it gives up the session
  | losing (line : Nat)
  -- it closes the line that was given up
  | dropping (stale : Option Nat)
  -- it waits, with so many slots to go.  The last error counts if nothing comes of them
  | waiting (slots : Nat) (last : NetError)
  -- it dials
  | dialing (slots : Nat) (last : NetError)
  -- a dial has opened a line to the node of the peer
  | dialed (slots : Nat) (last : NetError) (line : Nat)
  -- somebody else ended the waiting, and it looks for a line that was left
  | collecting
  -- it goes over to a new line
  | restored (line : Nat)
  -- it says that the peer cannot be reached
  | leaving (cause : NetError)
  -- it ends the peer
  | tearing (teardown : Teardown)
  -- it has ended
  | gone

namespace Stage

/-- The line whose session the supervisor attends to. -/
def attended? : Stage → Option Nat
  | .pumping line => some line
  | .stopped line _ => some line
  | .parting line _ => some line
  | .losing line => some line
  | .restored line => some line
  | _ => none

/-- The line that the supervisor has in hand, to be closed or installed. -/
def inHand? : Stage → Option Nat
  | .dropping stale => stale
  | .dialed _ _ line => some line
  | _ => none

def isWaiting : Stage → Bool
  | .dropping _ => true
  | .waiting _ _ => true
  | .dialing _ _ => true
  | .dialed _ _ _ => true
  | _ => false

/-- Whether the supervisor would find a line that was left to it. -/
def isSearching (stage : Stage) : Bool :=
  stage.isWaiting || stage matches .collecting

/-- Whether a search is over: a line was found, or none was, or the peer was ended. -/
def hasSettled : Stage → Bool
  | .restored _ => true
  | .leaving _ => true
  | .gone => true
  | _ => false

/-- Whether the supervisor is about to end the peer. -/
def isLeaving : Stage → Bool
  | .leaving _ => true
  | .tearing .marking => true
  | _ => false

/-- The ending of the peer that the supervisor is in. -/
def teardown? : Stage → Option Teardown
  | .tearing teardown => some teardown
  | _ => none

end Stage

/-- A peer with its supervisor and the calls that end it, and what has come of them. -/
structure Life where
  peer : Peer
  stage : Stage
  /-- The calls that end the peer, the ones that have returned included. -/
  calls : List Teardown := []
  /-- The lines that the peer was ever given, newest first. -/
  offered : List Nat
  /-- The lines that were closed. -/
  shut : List Nat := []
  /-- The lines that the supervisor went over to. -/
  resumed : List Nat := []
  /-- The events that were heard. -/
  emitted : List PeerEvent := []

/-- A peer after its session ended for a cause: breaches of the protocol are counted. -/
def Peer.charge (peer : Peer) : NetError → Peer
  | .protocol _ => { peer with breaches := peer.breaches + 1 }
  | _ => peer

/-- What a cause changes in a peer is the number of its breaches. -/
theorem Peer.exists_charge (peer : Peer) (cause : NetError) :
    ∃ breaches, peer.charge cause = { peer with breaches } := by
  cases cause <;> exact ⟨_, rfl⟩

namespace Life

/-- The life of a peer that was just started on a link. -/
def start (id : Nat) (link : Link) (policy : LinkPolicy) : Life where
  peer := Peer.start id link policy
  stage := .pumping link.line
  offered := [link.line]

def line? (life : Life) : Option Nat :=
  life.peer.session.map (·.line)

/-- The sections of the supervisor of a peer. -/
inductive Supervised : Life → Life → Prop
  -- a message is read
  | hear {life : Life} {line : Nat} (hstage : life.stage = .pumping line) (message : Message) :
      Supervised life { life with
        peer := life.peer.hear message
        emitted := life.emitted ++ life.peer.told (.message life.peer.id message) }
  -- nothing more is read
  | stop {life : Life} {line : Nat} (hstage : life.stage = .pumping line) (cause : NetError) :
      Supervised life { life with
        peer := life.peer.charge cause
        stage := .stopped line cause }
  -- the peer was ended
  | leave {life : Life} {line : Nat} {cause : NetError} (hstage : life.stage = .stopped line cause)
      (hstate : life.peer.state = .disconnected) :
      Supervised life { life with stage := .gone }
  -- the peer is live
  | live {life : Life} {line : Nat} {cause : NetError} (hstage : life.stage = .stopped line cause)
      (hstate : life.peer.state ≠ .disconnected) :
      Supervised life { life with stage := .parting line cause }
  -- the remote node said goodbye
  | part {life : Life} {line : Nat} {cause : NetError} (hstage : life.stage = .parting line cause)
      (hclosing : life.peer.closing = true) :
      Supervised life { life with stage := .leaving cause }
  -- the remote node did not say goodbye
  | stay {life : Life} {line : Nat} {cause : NetError} (hstage : life.stage = .parting line cause)
      (hclosing : life.peer.closing = false) :
      Supervised life { life with stage := .losing line }
  -- the peer was ended meanwhile
  | lost {life : Life} {line : Nat} (hstage : life.stage = .losing line)
      (hlose : life.peer.lose = none) :
      Supervised life { life with stage := .gone }
  -- the session is given up
  | lose {life : Life} {line : Nat} {stale : Option Nat} {next : Peer}
      (hstage : life.stage = .losing line) (hlose : life.peer.lose = some (stale, next)) :
      Supervised life { life with peer := next, stage := .dropping stale }
  -- the line that was given up is closed
  | drop {life : Life} {stale : Option Nat} {slots : Nat} (hstage : life.stage = .dropping stale)
      (hslots : life.peer.slots? = some slots) :
      Supervised life { life with
        stage := .waiting slots life.peer.notConnected
        shut := stale.toList ++ life.shut }
  -- waiting is over
  | cancel {life : Life} {slots : Nat} {last : NetError}
      (hstage : life.stage = .waiting (slots + 1) last) (hcancelled : life.peer.cancelled = true) :
      Supervised life { life with stage := .gone }
  -- a line was left
  | receive {life : Life} {slots : Nat} {last : NetError} {line : Nat} {next : Peer}
      (hstage : life.stage = .waiting (slots + 1) last) (hhandoff : life.peer.handoff = some line)
      (hpick : life.peer.pickUp = some next) :
      Supervised life { life with
        peer := next
        stage := .restored line
        resumed := line :: life.resumed }
  -- the slot has passed, and the remote node is the one that dials
  | skip {life : Life} {slots : Nat} {last : NetError}
      (hstage : life.stage = .waiting (slots + 1) last)
      (hdirection : life.peer.direction = .inbound) :
      Supervised life { life with stage := .waiting slots last }
  -- the slot has passed, and the node is dialed
  | dial {life : Life} {slots : Nat} {last : NetError}
      (hstage : life.stage = .waiting (slots + 1) last)
      (hdirection : life.peer.direction = .outbound) :
      Supervised life { life with stage := .dialing slots last }
  -- the dial fails
  | missed {life : Life} {slots : Nat} {last : NetError} (hstage : life.stage = .dialing slots last)
      (cause : NetError) :
      Supervised life { life with stage := .waiting slots cause }
  -- another node answers
  | mistaken {life : Life} {slots : Nat} {last : NetError} {link : Link}
      (hstage : life.stage = .dialing slots last)
      (hkey : link.identity.publicKey ≠ life.peer.identity.publicKey)
      (hfresh : link.line ∉ life.offered) :
      Supervised life { life with
        stage := .waiting slots (.handshake .keyChanged)
        offered := link.line :: life.offered
        shut := link.line :: life.shut }
  -- the node answers
  | answered {life : Life} {slots : Nat} {last : NetError} {link : Link}
      (hstage : life.stage = .dialing slots last)
      (hkey : link.identity.publicKey = life.peer.identity.publicKey)
      (hfresh : link.line ∉ life.offered) :
      Supervised life { life with
        stage := .dialed slots last link.line
        offered := link.line :: life.offered }
  -- the line is installed
  | install {life : Life} {slots : Nat} {last : NetError} {line : Nat} {next : Peer}
      (hstage : life.stage = .dialed slots last line)
      (hinstall : life.peer.install line = some next) :
      Supervised life { life with
        peer := next
        stage := .restored line
        resumed := line :: life.resumed }
  -- no session can be opened on the line
  | unopened {life : Life} {slots : Nat} {last : NetError} {line : Nat}
      (hstage : life.stage = .dialed slots last line) (hstate : life.peer.state = .reconnecting)
      (cause : NetError) :
      Supervised life { life with
        stage := .waiting slots cause
        shut := line :: life.shut }
  -- the peer did not wait any more, and another line was left to it
  | overtaken {life : Life} {slots : Nat} {last : NetError} {line other : Nat} {next : Peer}
      (hstage : life.stage = .dialed slots last line) (hinstall : life.peer.install line = none)
      (hhandoff : life.peer.handoff = some other) (hpick : life.peer.pickUp = some next) :
      Supervised life { life with
        peer := next
        stage := .restored other
        shut := line :: life.shut
        resumed := other :: life.resumed }
  -- the peer did not wait any more, and no line was left to it
  | refused {life : Life} {slots : Nat} {last : NetError} {line : Nat}
      (hstage : life.stage = .dialed slots last line) (hinstall : life.peer.install line = none)
      (hpick : life.peer.pickUp = none) :
      Supervised life { life with
        stage := .gone
        shut := line :: life.shut }
  -- no slot is left, and the peer still waits
  | exhaust {life : Life} {last : NetError} {next : Peer} (hstage : life.stage = .waiting 0 last)
      (hexhaust : life.peer.exhaust = some next) :
      Supervised life { life with peer := next, stage := .leaving last }
  -- no slot is left, and the peer does not wait any more
  | spared {life : Life} {last : NetError} (hstage : life.stage = .waiting 0 last)
      (hexhaust : life.peer.exhaust = none) :
      Supervised life { life with stage := .collecting }
  -- a line was left
  | collect {life : Life} {line : Nat} {next : Peer} (hstage : life.stage = .collecting)
      (hhandoff : life.peer.handoff = some line) (hpick : life.peer.pickUp = some next) :
      Supervised life { life with
        peer := next
        stage := .restored line
        resumed := line :: life.resumed }
  -- no line was left
  | abandon {life : Life} (hstage : life.stage = .collecting) (hpick : life.peer.pickUp = none) :
      Supervised life { life with stage := .gone }
  -- the new line is announced
  | announce {life : Life} {line : Nat} (hstage : life.stage = .restored line) :
      Supervised life { life with
        stage := .pumping line
        emitted := life.emitted ++ life.peer.told (.reconnected life.peer.id) }
  -- it is said that the peer cannot be reached
  | report {life : Life} {cause : NetError} (hstage : life.stage = .leaving cause) :
      Supervised life { life with
        stage := .tearing .marking
        emitted := life.emitted ++ life.peer.told (.unreachable life.peer.id cause) }
  -- the peer is ended
  | tear {life : Life} {teardown after : Teardown} {line : Option Nat} {next : Peer}
      (hstage : life.stage = .tearing teardown)
      (hproceed : teardown.proceed life.peer = (after, line, next))
      (hopen : ∀ wasLive, teardown ≠ .done wasLive) :
      Supervised life { life with
        peer := next
        stage := .tearing after
        shut := line.toList ++ life.shut }
  -- the peer has been ended
  | finish {life : Life} {wasLive : Bool} (hstage : life.stage = .tearing (.done wasLive)) :
      Supervised life { life with stage := .gone }

/-- The sections of the calls of others. -/
inductive Meanwhile : Life → Life → Prop
  -- messages are queued, written and read on the session
  | traffic {life : Life} {session next : Session} (hsession : life.peer.session = some session)
      (hline : next.line = session.line) :
      Meanwhile life { life with peer := { life.peer with session := some next } }
  -- a line is offered, and the peer resumes on it
  | adopt {life : Life} {line : Nat} {next : Peer} (hfresh : line ∉ life.offered)
      (hadopt : life.peer.adopt line = some next) :
      Meanwhile life { life with peer := next, offered := line :: life.offered }
  -- a line is offered, and the peer does not wait for one
  | decline {life : Life} {line : Nat} (hfresh : line ∉ life.offered)
      (hadopt : life.peer.adopt line = none) :
      Meanwhile life { life with
        offered := line :: life.offered
        shut := line :: life.shut }
  -- a line is offered on which no session can be opened
  | spoil {life : Life} {line : Nat} (hfresh : line ∉ life.offered)
      (hstate : life.peer.state = .reconnecting) :
      Meanwhile life { life with
        offered := line :: life.offered
        shut := line :: life.shut }
  -- a call begins to end the peer
  | call {life : Life} : Meanwhile life { life with calls := .marking :: life.calls }
  -- a call that ends the peer goes on
  | proceed {life : Life} {before behind : List Teardown} {teardown after : Teardown}
      {line : Option Nat} {next : Peer} (hcalls : life.calls = before ++ teardown :: behind)
      (hproceed : teardown.proceed life.peer = (after, line, next))
      (hopen : ∀ wasLive, teardown ≠ .done wasLive) :
      Meanwhile life { life with
        peer := next
        calls := before ++ after :: behind
        shut := line.toList ++ life.shut }

/-- The sections of the supervisor and of the calls of others. -/
def Step (life next : Life) : Prop :=
  Supervised life next ∨ Meanwhile life next

/-- The lives that one leads to, with the number of sections of the supervisor on the way. -/
inductive Run (first : Life) : Nat → Life → Prop
  | refl : Run first 0 first
  | supervise {count : Nat} {life next : Life} (hrun : Run first count life)
      (hsupervised : Supervised life next) : Run first (count + 1) next
  | interpose {count : Nat} {life next : Life} (hrun : Run first count life)
      (hmeanwhile : Meanwhile life next) : Run first count next

end Life

end Overlay
