import Overlay.Wire.Split

/-!
# The outgoing side of a connection

Messages wait in a queue and are written in order.  Each gets a verdict.  A
message that cannot be encoded fails alone; a failure of the stream ends the
writing, and whatever still waits is dropped.
-/

namespace Overlay.Wire

/-- A message to be written, and the number of whoever waits for its verdict. -/
structure Job where
  message : Message
  ticket : Option Nat := none

/-- A written or dropped message, and how that went. -/
structure Verdict where
  job : Job
  result : Except NetError Unit

/-- Where the writing stands. -/
inductive OutboxPhase
  /-- Messages are being written. -/
  | running
  /-- The stream failed, and what waits is being dropped. -/
  | draining (cause : NetError)
  /-- Nothing waited any more; the failure is about to be announced. -/
  | closing (cause : NetError)
  /-- The writing has ended. -/
  | ended
  deriving DecidableEq

/-- The outgoing side of a connection. -/
structure Outbox where
  queue : List Job := []
  phase : OutboxPhase := .running

/-- The verdict on a message that waited when the stream failed. -/
def NetError.dropped : NetError := .notConnected "dropped after write failure"

/-- The answer to a message that comes too late. -/
def NetError.writerStopped : NetError := .notConnected "writer has stopped"

namespace Outbox

def enqueue (outbox : Outbox) (job : Job) : Except NetError Outbox :=
  if outbox.phase = .ended then .error NetError.writerStopped
  else .ok { outbox with queue := outbox.queue ++ [job] }

/-- What one step of the writing does: a verdict, an announced failure, and bytes on the stream. -/
structure Step where
  outbox : Outbox
  verdict : Option Verdict := none
  failure : Option NetError := none
  taken : Bytes := []
  sink : Sink

/-- One step of the writing, if there is anything to do. -/
def step? (outbox : Outbox) (size : Nat) (sink : Sink) : Option Step :=
  match outbox.phase, outbox.queue with
  | .running, [] => none
  | .running, job :: rest =>
    let sent := sendMessage job.message size sink
    let phase := match sent.result with
      | .ok () => .running
      | .error e => if e.isTransient then .draining e else .running
    some {
      outbox := { queue := rest, phase }
      verdict := some ⟨job, sent.result⟩
      taken := sent.taken
      sink := sent.sink }
  | .draining cause, job :: rest =>
    some {
      outbox := { queue := rest, phase := .draining cause }
      verdict := some ⟨job, .error NetError.dropped⟩
      sink }
  | .draining cause, [] => some { outbox := { queue := [], phase := .closing cause }, sink }
  | .closing cause, _ =>
    some { outbox := { queue := [], phase := .ended }, failure := some cause, sink }
  | .ended, _ => none

end Outbox

/-- The outcome of writing a queue to its end: a verdict on each message in order, the failure
that ended the writing, and the bytes the stream took. -/
structure Delivered where
  verdicts : List Verdict
  failure : Option NetError
  taken : Bytes
  sink : Sink

/-- Writes a queue to which nothing is added. -/
def deliver (size : Nat) : List Job → Sink → Delivered
  | [], sink => ⟨[], none, [], sink⟩
  | job :: rest, sink =>
    let sent := sendMessage job.message size sink
    let stops := match sent.result with
      | .ok () => none
      | .error e => if e.isTransient then some e else none
    match stops with
    | some cause =>
      ⟨⟨job, sent.result⟩ :: rest.map (⟨·, .error NetError.dropped⟩), some cause, sent.taken,
        sent.sink⟩
    | none =>
      let more := deliver size rest sent.sink
      { more with
        verdicts := ⟨job, sent.result⟩ :: more.verdicts
        taken := sent.taken ++ more.taken }

namespace Delivered

/-- The verdicts on messages that somebody waits for, by ticket. -/
def answers (delivered : Delivered) : List (Nat × Except NetError Unit) :=
  delivered.verdicts.filterMap fun verdict =>
    verdict.job.ticket.map fun ticket => (ticket, verdict.result)

/-- The writing side after the queue was written. -/
def outbox (delivered : Delivered) : Outbox :=
  { phase := if delivered.failure.isSome then .ended else .running }

end Delivered

/-- How many messages of a queue wait while the first one that can be split is written.  Nothing can
be split in chunks of an invalid size. -/
def waiting? (size : Nat) (jobs : List Job) : Option Nat :=
  if (Message.split ⟨0, .empty⟩ size).isOk then
    some ((jobs.dropWhile fun job => !(job.message.split size).isOk).length - 1)
  else none

end Overlay.Wire
