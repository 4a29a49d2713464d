import Overlay.Proofs.Peer.Traffic
import Overlay.Settings

/-!
# The size of chunks in settings

Settings are checked for a size of chunks that is no larger than a frame, but a
chunk travels in a frame with its header.  So settings that are accepted can
send every message that is not too long, or none at all: the latter if the size
of chunks is within a header of that of a frame.
-/

namespace Overlay

open Wire

namespace Settings

variable {settings : Settings}

theorem chunkSize_of_validate (hvalid : settings.validate = .ok ()) :
    1 ≤ settings.maxChunkSize ∧ settings.maxChunkSize ≤ maxFrameLength := by
  rw [validate] at hvalid
  split at hvalid
  · exact absurd hvalid nofun
  · split at hvalid
    · exact absurd hvalid nofun
    · omega

/-- Every message that is not too long can be split, and no peer finds fault with the size of chunks
when such a message is written. -/
def CanSend (settings : Settings) : Prop :=
  ∀ message : Message, message.payload.size ≤ maxMessageLength →
    (message.split settings.linkPolicy.chunkSize).isOk ∧
      ∀ (peer : Peer) (net : Net), peer.policy = settings.linkPolicy →
        ∀ verdict ∈ (peer.write net).2.2, verdict.job.message = message →
          ∀ fault, verdict.result ≠ .error (.config fault)

theorem canSend_of_fits (hpositive : 1 ≤ settings.maxChunkSize)
    (hfits : settings.maxChunkSize + chunkHeaderLength ≤ maxFrameLength) : settings.CanSend := by
  intro message hshort
  have hsplit : (message.split settings.linkPolicy.chunkSize).isOk :=
    (message.split_isOk_iff _).2 ⟨hpositive, hfits, hshort⟩
  refine ⟨hsplit, ?_⟩
  rintro peer net hpolicy verdict hverdict rfl fault
  rw [← hpolicy] at hsplit
  exact Peer.write_result_ne_config hverdict hsplit fault

/-- Chunks that do not fit in a frame with their header are refused for every message. -/
theorem split_of_not_fits (hlong : maxFrameLength < settings.maxChunkSize + chunkHeaderLength)
    (message : Message) :
    message.split settings.linkPolicy.chunkSize =
      .error (.config (.chunkSize settings.maxChunkSize)) := by
  have hchunk : settings.linkPolicy.chunkSize = settings.maxChunkSize := rfl
  rw [hchunk, Message.split, if_pos (Or.inr hlong)]

/-- **Settings that are accepted can send every message, or none.**  They can if a chunk fits in a
frame with its header. -/
theorem canSend_or_stuck (hvalid : settings.validate = .ok ()) :
    settings.maxChunkSize + chunkHeaderLength ≤ maxFrameLength ∧ settings.CanSend ∨
      maxFrameLength < settings.maxChunkSize + chunkHeaderLength ∧
        ∀ message : Message, message.split settings.linkPolicy.chunkSize =
          .error (.config (.chunkSize settings.maxChunkSize)) := by
  obtain ⟨hpositive, -⟩ := chunkSize_of_validate hvalid
  rcases Nat.lt_or_ge maxFrameLength (settings.maxChunkSize + chunkHeaderLength) with hlong | hfits
  · exact Or.inr ⟨hlong, split_of_not_fits hlong⟩
  · exact Or.inl ⟨hfits, canSend_of_fits hpositive hfits⟩

/-- Settings with the largest chunks that fit. -/
theorem canSend_or_stuck_largest :
    validate { bootnodes := [], maxChunkSize := maxFrameLength - chunkHeaderLength } = .ok () ∧
      CanSend { bootnodes := [], maxChunkSize := maxFrameLength - chunkHeaderLength } := by
  have hvalid : validate { bootnodes := [], maxChunkSize := maxFrameLength - chunkHeaderLength } =
      .ok () := by
    decide
  refine ⟨hvalid, ?_⟩
  rcases canSend_or_stuck hvalid with ⟨-, hsends⟩ | ⟨hlong, -⟩
  · exact hsends
  · exact absurd hlong (by decide)

/-- Settings whose chunks are as large as a frame are accepted, and cannot send anything. -/
theorem not_canSend_of_frameLength :
    validate { bootnodes := [], maxChunkSize := maxFrameLength } = .ok () ∧
      ¬ CanSend { bootnodes := [], maxChunkSize := maxFrameLength } := by
  refine ⟨by decide, fun hsends => ?_⟩
  have hsplit := (hsends ⟨0, .empty⟩ (Nat.zero_le _)).1
  rw [split_of_not_fits (by decide)] at hsplit
  exact absurd hsplit nofun

end Settings

end Overlay
