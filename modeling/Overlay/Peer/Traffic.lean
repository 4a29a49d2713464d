import Overlay.Peer.Basic

/-!
# The traffic of a peer

Writing and reading on the session of a peer, as far as the line allows.
-/

namespace Overlay

open Wire

/-- What reading a session came to. -/
inductive Heard
  | nothing
  | message (message : Message)
  | ended (cause : NetError)

namespace Session

/-- Writes what waits until the queue is empty or the line has no room; `fuel` bounds the steps. -/
def drain (size : Nat) : Nat → Session → Line → Session × Line × List Verdict
  | 0, session, line => (session, line, [])
  | fuel + 1, session, line =>
    let blocked := match session.outbox.queue with
      | [] => false
      | job :: _ => !line.hasRoom job.message.payload.size
    if blocked then (session, line, [])
    else
      match session.outbox.step? size line.sink with
      | none => (session, line, [])
      | some step =>
        let failure := match session.failure with
          | some cause => some cause
          | none => step.failure
        let (session, line, verdicts) :=
          drain size fuel { session with outbox := step.outbox, failure } (line.carry step.taken)
        (session, line, step.verdict.toList ++ verdicts)

/-- Reads the next message.  As long as the line is open, a message that is not complete is
waited for.  What was read counts before a failure to write. -/
def hear (session : Session) (line : Line) : Heard × Session × Line :=
  match Inbox.read ⟨session.assembler, .ofBytes line.arriving⟩ with
  | (.ok message, inbox) =>
    (.message message, { session with assembler := inbox.assembler },
      { line with arriving := inbox.source.unread })
  | (.error cause, _) =>
    if cause = IoFault.endOfStream.toError && line.isOpen then
      match session.failure with
      | some cause => (.ended cause, session, line)
      | none => (.nothing, session, line)
    else (.ended cause, session, line)

end Session

namespace Peer

def write (peer : Peer) (net : Net) : Peer × Net × List Verdict :=
  match peer.session with
  | none => (peer, net, [])
  | some session =>
    let steps := session.outbox.queue.length + 3
    let (session, line, verdicts) :=
      session.drain peer.policy.chunkSize steps (net.line session.line)
    ({ peer with session := some session }, net.change session.line fun _ => line, verdicts)

/-- Reads the next message on the session of a peer. -/
def read (peer : Peer) (net : Net) : Heard × Peer × Net :=
  match peer.session with
  | none => (.ended IoFault.endOfStream.toError, peer, net)
  | some session =>
    let (heard, session, line) := session.hear (net.line session.line)
    (heard, { peer with session := some session }, net.change session.line fun _ => line)

/-- Says goodbye to the remote node, as far as it can be written. -/
def sayGoodbye (peer : Peer) (net : Net) : Peer × Net :=
  match peer.enqueue { message := disconnectMessage } with
  | .error _ => (peer, net)
  | .ok peer =>
    let (peer, net, _) := peer.write net
    (peer, net)

def disconnect (peer : Peer) (net : Net) : Bool × Peer × Net :=
  let (wasLive, line, peer) := peer.teardown
  (wasLive, peer, line.elim net net.close)

end Peer

end Overlay
