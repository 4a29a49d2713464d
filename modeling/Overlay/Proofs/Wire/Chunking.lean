import Mathlib.Algebra.Order.Floor.Div
import Overlay.Proofs.Wire.Sending

/-!
# How messages are cut into chunks

A message that is longer than a chunk is cut into as many chunks as it takes to
hold it: full ones, and a last one that is not empty.  Every frame of a message
that can be split fits.  So a message fails for a reason of its own before
anything is asked of the stream, and the stream stays in step.
-/

namespace Overlay.Wire.Message

/-- The chunks into which a message is cut. -/
structure IsCutInto (message : Message) (size : Nat) (chunks : List Chunk) : Prop where
  count : chunks.length = message.payload.size ⌈/⌉ size
  several : 2 ≤ chunks.length
  tags : ∀ chunk ∈ chunks, chunk.tag = message.tag
  totals : ∀ chunk ∈ chunks, chunk.total.toNat = message.payload.size
  positions : chunks.map (·.position.toNat) = List.range chunks.length
  ends : chunks.map (·.isLast) = List.replicate (chunks.length - 1) false ++ [true]
  filled : ∀ chunk ∈ chunks, 1 ≤ chunk.data.size ∧ chunk.data.size ≤ size
  joined : chunks.flatMap (·.data.bytes) = message.payload.bytes

variable {message : Message} {size : Nat} {frames : List Frame}

theorem chunkCount_eq_ceilDiv (message : Message) (hsize : 1 ≤ size) :
    message.chunkCount size = message.payload.size ⌈/⌉ size := by
  rw [chunkCount, Nat.ceilDiv_eq_add_pred_div, Nat.add_sub_assoc hsize]

/-- A message that is longer than a chunk takes two chunks at least. -/
theorem two_le_chunkCount (hsize : 1 ≤ size) (hlong : size < message.payload.size) :
    2 ≤ message.chunkCount size := by
  rw [chunkCount, Nat.le_div_iff_mul_le hsize]
  omega

/-- Every chunk begins before the end of the message. -/
theorem size_chunkAt_pos {position : Nat} (hsize : 1 ≤ size)
    (hposition : position < message.chunkCount size) :
    1 ≤ (message.chunkAt size position).data.size := by
  have hbegins : (position + 1) * size ≤ message.payload.size + (size - 1) :=
    (Nat.le_div_iff_mul_le hsize).1 hposition
  rw [Nat.succ_mul] at hbegins
  rw [← Payload.length_bytes, bytes_chunkAt, List.length_take, List.length_drop,
    Payload.length_bytes]
  omega

/-- The chunks of a message that is longer than one of them are what it is cut into. -/
theorem isCutInto_chunkGroup (hsize : 1 ≤ size) (hlong : size < message.payload.size)
    (hmax : message.payload.size ≤ maxMessageLength) :
    message.IsCutInto size (message.chunkGroup size hsize hlong hmax).chunks := by
  have hlength : (message.chunkGroup size hsize hlong hmax).chunks.length =
      message.chunkCount size := by
    rw [chunkGroup, List.length_map, List.length_range]
  have htotal : (UInt32.ofNat message.payload.size).toNat = message.payload.size :=
    UInt32.toNat_ofNat_of_lt' (Nat.lt_of_le_of_lt hmax (by decide))
  refine {
    count := hlength.trans (message.chunkCount_eq_ceilDiv hsize)
    several := by rw [hlength]; exact two_le_chunkCount hsize hlong
    tags := (message.chunkGroup size hsize hlong hmax).tags
    totals := ?_
    positions := (message.chunkGroup size hsize hlong hmax).positions
    ends := (message.chunkGroup size hsize hlong hmax).ends
    filled := ?_
    joined := ?_ }
  · intro chunk hchunk
    rw [(message.chunkGroup size hsize hlong hmax).totals chunk hchunk]
    exact htotal
  · intro chunk hchunk
    obtain ⟨position, hposition, rfl⟩ := List.mem_map.1 hchunk
    exact ⟨size_chunkAt_pos hsize (List.mem_range.1 hposition),
      message.size_chunkAt_le size position⟩
  · have hback := congrArg (·.payload.bytes) (message.message_chunkGroup size hsize hlong hmax)
    rwa [ChunkGroup.message, Payload.bytes_ofBytes] at hback

/-- What a message is split into: itself, or the chunks into which it is cut. -/
theorem split_cases (hsplit : message.split size = .ok frames) :
    (message.payload.size ≤ size ∧ frames = [.whole message]) ∨
      (size < message.payload.size ∧
        ∃ chunks : List Chunk, frames = chunks.map .chunk ∧ message.IsCutInto size chunks) := by
  have hok : (message.split size).isOk := by
    rw [hsplit]
    rfl
  obtain ⟨hsize, -, hmax⟩ := (message.split_isOk_iff size).1 hok
  rw [split] at hsplit
  split_ifs at hsplit with hbad hlong hshort
  · exact Or.inl ⟨hshort, (Except.ok.inj hsplit).symm⟩
  · have hcut := Nat.lt_of_not_le hshort
    refine Or.inr ⟨hcut, _, ?_, isCutInto_chunkGroup hsize hcut hmax⟩
    rw [← Except.ok.inj hsplit, chunkGroup, List.map_map]
    rfl

/-- Sending that fails for no fault of the stream has failed to split the message. -/
theorem split_of_refused {sink : Sink} {cause : NetError}
    (hresult : (sendMessage message size sink).result = .error cause)
    (htransient : cause.isTransient = false) : message.split size = .error cause := by
  rcases sendMessage_cases message size sink with
    ⟨refusal, hsplit, hsent⟩ | ⟨-, ⟨hok, -⟩ | ⟨fault, hfault, hstream, -⟩⟩
  · rw [hsent] at hresult
    rw [hsplit, ← Except.error.inj hresult]
  · exact absurd (hok.symm.trans hresult) nofun
  · obtain rfl := Except.error.inj (hfault.symm.trans hresult)
    exact absurd (hstream.symm.trans htransient) nofun

/-- **A message is cut as it should be, or nothing is asked of the stream.**  It can be split
exactly if chunks of that size fit in frames and it is not too long.  Then every frame of it can be
encoded, and it is one whole frame if it fits in a chunk and otherwise the chunks into which it is
cut.  If sending fails with an error that is neither one of input and output nor a timeout, then no
stream is ever asked for anything: whatever its answers, it takes no bytes, it gets no call, and
none of its answers to writes and flushes is used up. -/
theorem cut_or_refused (message : Message) (size : Nat) :
    ((message.split size).isOk ↔ 1 ≤ size ∧ size ≤ maxFrameLength - chunkHeaderLength ∧
        message.payload.size ≤ maxMessageLength) ∧
      (∀ frames, message.split size = .ok frames →
        (∀ frame ∈ frames, frame.encode = .ok frame.bytes) ∧
        (message.payload.size ≤ size → frames = [.whole message]) ∧
        (size < message.payload.size →
          ∃ chunks : List Chunk, frames = chunks.map .chunk ∧ message.IsCutInto size chunks)) ∧
      ∀ sink cause, (sendMessage message size sink).result = .error cause →
        (∀ text, cause ≠ .io text) → (∀ text, cause ≠ .timeout text) →
        ∀ other : Sink, sendMessage message size other = ⟨.error cause, [], 0, other⟩ := by
  refine ⟨?_, fun frames hsplit => ⟨?_, fun hshort => ?_, fun hlong => ?_⟩, ?_⟩
  · rw [split_isOk_iff, Nat.le_sub_iff_add_le (by decide)]
  · intro frame hframe
    exact Frame.encode_eq_ok_iff.2 ⟨length_le_of_split hsplit frame hframe, rfl⟩
  · rcases split_cases hsplit with ⟨-, hwhole⟩ | ⟨hlong, -⟩
    · exact hwhole
    · exact absurd hlong (Nat.not_lt.2 hshort)
  · rcases split_cases hsplit with ⟨hshort, -⟩ | ⟨-, hcut⟩
    · exact absurd hlong (Nat.not_lt.2 hshort)
    · exact hcut
  · intro sink cause hresult hio htimeout other
    have htransient : cause.isTransient = false := by
      cases cause with
      | io text => exact absurd rfl (hio text)
      | timeout text => exact absurd rfl (htimeout text)
      | _ => rfl
    rw [sendMessage, split_of_refused hresult htransient]

/-- Five bytes in chunks of two are three chunks, and no stream is asked for anything if the chunks
have no bytes. -/
theorem cut_or_refused_five :
    (∃ frames, split ⟨3, .ofBytes [1, 2, 3, 4, 5]⟩ 2 = .ok frames ∧ frames.length = 3 ∧
      ∃ chunks : List Chunk, frames = chunks.map .chunk ∧
        IsCutInto ⟨3, .ofBytes [1, 2, 3, 4, 5]⟩ 2 chunks) ∧
      sendMessage ⟨3, .ofBytes [1, 2, 3, 4, 5]⟩ 0 { flushes := [.all] } =
        ⟨.error (.config (.chunkSize 0)), [], 0, { flushes := [.all] }⟩ := by
  obtain ⟨-, hcut, -⟩ := cut_or_refused ⟨3, .ofBytes [1, 2, 3, 4, 5]⟩ 2
  obtain ⟨-, -, hrefused⟩ := cut_or_refused ⟨3, .ofBytes [1, 2, 3, 4, 5]⟩ 0
  refine ⟨⟨_, rfl, rfl, (hcut _ rfl).2.2 (by decide)⟩, ?_⟩
  exact hrefused {} (.config (.chunkSize 0)) rfl nofun nofun { flushes := [.all] }

end Overlay.Wire.Message
