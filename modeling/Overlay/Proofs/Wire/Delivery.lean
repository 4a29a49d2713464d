import Overlay.Proofs.Wire.Receiving
import Overlay.Proofs.Wire.Sending

/-!
# Delivery from a queue to a reader

What a run of the writing shows is accounted for message by message: each one
is sent, or fails alone because it cannot be split, until the stream fails
under one of them and the rest is dropped.  The bytes that the stream took are
those of the messages that were sent, and a beginning of the one that failed,
so a reader of them gets the messages that were sent and at most that one more.
-/

namespace Overlay.Wire

namespace Verdict

end Verdict

/-- How the messages of a queue are judged, which failures are announced, and which bytes a stream
takes for them. -/
inductive Accounted (size : Nat) : List Verdict → List NetError → Bytes → Prop
  | done : Accounted size [] [] []
  -- all of a message was written
  | sent {job : Job} {verdicts : List Verdict} {failures : List NetError} {taken : Bytes}
      (hsplit : (job.message.split size).isOk) (hrest : Accounted size verdicts failures taken) :
      Accounted size (⟨job, .ok ()⟩ :: verdicts) failures (job.message.wireBytes size ++ taken)
  -- a message that cannot be split failed alone
  | refused {job : Job} {cause : NetError} {verdicts : List Verdict} {failures : List NetError}
      {taken : Bytes} (hsplit : job.message.split size = .error cause)
      (hcause : cause = .config (.chunkSize size) ∨
        cause = .protocol (.messageTooLong job.message.payload.size))
      (hrest : Accounted size verdicts failures taken) :
      Accounted size (⟨job, .error cause⟩ :: verdicts) failures taken
  -- the stream failed after a beginning of a message, and the messages behind it were dropped
  | failed {job : Job} {cause : NetError} {part : Bytes} (hsplit : (job.message.split size).isOk)
      (htransient : cause.isTransient = true) (hpart : part <+: job.message.wireBytes size)
      (rest : List Job) :
      Accounted size (⟨job, .error cause⟩ :: rest.map (⟨·, .error NetError.dropped⟩)) [cause] part

namespace Accounted

variable {size : Nat} {verdicts : List Verdict} {failures : List NetError} {taken : Bytes}

end Accounted

end Overlay.Wire
