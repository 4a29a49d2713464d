import Overlay.Proofs.Wire.Cutting
import Overlay.Proofs.Wire.Growth

/-!
# What is received can be sent on

A reader takes whole frames of up to 16 MiB, and messages of up to 64 MiB in chunks.  A writer takes
messages of up to 64 MiB.  So no message is received that could not be sent on, in chunks of any
size that is valid, whatever the stream was (`received_forwardable`).

The bound on a message in chunks is the one on what is in flight (`Assembly.Bounded`), which every
frame keeps, taken or refused.  A chunk is taken in two stages: unless a message is in flight, it
opens one; and then it goes on with the message in flight.  There is one by then, so the second
stage never finds that it is lost.
-/

namespace Overlay

/-! ## The wording of refusals -/

namespace ProtocolFault

/-- The fault of going on with a message that is not in flight. -/
def lostSequence : ProtocolFault :=
  .reported "chunk assembler lost its sequence"

/-- How the wordings of the faults begin for which chunks are refused. -/
def fronts : List String :=
  ["chunked message of ", "chunk sequence starts at position ", "chunk of type ",
    "expected chunk position ", "total size changed from ", "chunks exceed declared total size ",
    "reassembled ", "chunk positions exhausted"]

theorem OfChunks.exists_front {fault : ProtocolFault} (hfault : fault.OfChunks) :
    ∃ front ∈ fronts, ∃ rest : String, fault.text = front ++ rest := by
  have hjoin (a b c d : String) : a ++ b ++ c ++ d = a ++ (b ++ c ++ d) := by
    simp only [String.append_assoc]
  have hlonger (a b c d e : String) : a ++ b ++ c ++ d ++ e = a ++ (b ++ c ++ d ++ e) := by
    simp only [String.append_assoc]
  cases hfault with
  | tooLong length => exact ⟨"chunked message of ", by decide, _, hjoin _ _ _ _⟩
  | starts position => exact ⟨"chunk sequence starts at position ", by decide, _, rfl⟩
  | interleaved tag expected => exact ⟨"chunk of type ", by decide, _, hjoin _ _ _ _⟩
  | misplaced expected got => exact ⟨"expected chunk position ", by decide, _, hjoin _ _ _ _⟩
  | changed declared got => exact ⟨"total size changed from ", by decide, _, hlonger _ _ _ _ _⟩
  | exceeds total => exact ⟨"chunks exceed declared total size ", by decide, _, rfl⟩
  | mismatched received declared => exact ⟨"reassembled ", by decide, _, hlonger _ _ _ _ _⟩
  | exhausted => exact ⟨"chunk positions exhausted", by decide, "", rfl⟩

/-- The first eight characters tell them apart from that of a lost sequence. -/
theorem append_ne_lostSequence {front : String} (hfront : front ∈ fronts) (rest : String) :
    front ++ rest ≠ lostSequence.text := by
  have hdiffers : 8 ≤ front.toList.length ∧
      front.toList.take 8 ≠ lostSequence.text.toList.take 8 := by
    revert front
    decide +kernel
  intro hsame
  apply hdiffers.2
  rw [← hsame, String.toList_append, List.take_append_of_le_length hdiffers.1]

theorem OfChunks.text_ne {fault : ProtocolFault} (hfault : fault.OfChunks) :
    fault.text ≠ lostSequence.text := by
  obtain ⟨front, hfront, rest, htext⟩ := hfault.exists_front
  rw [htext]
  exact append_ne_lostSequence hfront rest

end ProtocolFault

namespace Wire

/-! ## Chunks in two stages -/

namespace Assembler

/-- The first stage: a chunk opens a message unless one is in flight. -/
def opened (assembler : Assembler) (chunk : Chunk) : Assembler :=
  match assembler with
  | .idle => .accumulating (.start chunk.tag chunk.total)
  | .accumulating assembly => .accumulating assembly

/-- The second stage: a chunk goes on with the message in flight. -/
def goOn (assembler : Assembler) (chunk : Chunk) : Except NetError (Option Message) × Assembler :=
  match assembler with
  | .idle => (.error (.protocol .lostSequence), .idle)
  | .accumulating assembly => assembly.push chunk

/-- A chunk that is not refused at once is taken in two stages. -/
theorem pushChunk_eq_goOn (assembler : Assembler) (chunk : Chunk) :
    assembler.pushChunk chunk =
      if maxMessageLength < chunk.total.toNat then
        (.error (.protocol (.chunkedTooLong chunk.total.toNat)), assembler)
      else if assembler.isIdle ∧ chunk.position ≠ 0 then
        (.error (.protocol (.sequenceStart chunk.position.toNat)), assembler)
      else (assembler.opened chunk).goOn chunk := by
  unfold pushChunk
  cases assembler with
  | idle => simp [isIdle, opened, goOn]
  | accumulating assembly => simp [isIdle, opened, goOn]

theorem ofChunks_of_pushAll {assembler : Assembler} {frames : List Frame} {cause : NetError}
    (hcause : .error cause ∈ (assembler.pushAll frames).1) :
    ∃ fault : ProtocolFault, cause = .protocol fault ∧ fault.OfChunks := by
  induction frames generalizing assembler with
  | nil => exact absurd hcause List.not_mem_nil
  | cons frame frames ih =>
      rcases List.mem_cons.1 hcause with hfirst | hrest
      · exact ofChunks_of_push (Prod.ext hfirst.symm rfl)
      · exact ih hrest

end Assembler

/-! ## How long messages are -/

/-- The data of a message is as long as its chunks together. -/
theorem Assembly.size_payload (assembly : Assembly) :
    assembly.payload.size = (assembly.chunks.map (·.size)).sum := by
  rw [← Payload.length_bytes, payload, bytes_foldl_append]
  simp only [List.length_append, List.length_flatMap, Payload.length_bytes, List.map_reverse,
    List.sum_reverse]
  exact Nat.zero_add _

namespace Assembler

/-- A message that a frame completes is the frame itself, or is bounded by what its chunks
declared. -/
theorem Grown.size_le {assembler after : Assembler} {count : Nat} (hgrown : assembler.Grown count)
    {frame : Frame} (hframe : frame.length ≤ maxFrameLength) {message : Message}
    (hpush : assembler.push frame = (.ok (some message), after)) :
    message.payload.size ≤ maxMessageLength := by
  cases frame with
  | whole whole =>
      obtain rfl : whole = message :=
        Option.some.inj (Except.ok.inj (congrArg Prod.fst hpush))
      exact Nat.le_trans hframe (by decide)
  | chunk chunk =>
      obtain ⟨htotal, haccepts, htarget⟩ := pushChunk_ok hpush
      rcases (Assembly.push_ok htarget).2 with ⟨-, hnone, -⟩ | ⟨-, -, hsome, -⟩
      · exact absurd hnone nofun
      · have hbounded := (hgrown.target htotal).1.add haccepts
        rw [Option.some.inj hsome, Assembly.size_payload, ← hbounded.received_eq]
        exact Nat.le_trans hbounded.received_le hbounded.total_le

end Assembler

namespace Frame

theorem length_of_readContent {tag flag : UInt8} {length : Nat} {source next : Source}
    {frame : Frame} (hread : readContent tag flag length source = (.ok frame, next)) :
    frame.length = length := by
  unfold readContent at hread
  split at hread
  · split at hread
    · cases hread
    · next payload after hpayload =>
      obtain rfl := Except.ok.inj (congrArg Prod.fst hread)
      show (Payload.ofBytes payload).size = length
      rw [← Payload.length_bytes, Payload.bytes_ofBytes]
      exact (Source.unread_of_readExact hpayload).2
  · split at hread
    · cases hread
    · next hlong =>
      split at hread
      · cases hread
      · split at hread
        · cases hread
        · next data after hdata =>
          obtain rfl := Except.ok.inj (congrArg Prod.fst hread)
          show (Payload.ofBytes data).size + chunkHeaderLength = length
          rw [← Payload.length_bytes, Payload.bytes_ofBytes, (Source.unread_of_readExact hdata).2]
          omega

/-- Every frame that is read fits. -/
theorem length_le_of_read {source next : Source} {frame : Frame}
    (hread : read source = (.ok frame, next)) : frame.length ≤ maxFrameLength := by
  rw [read] at hread
  split at hread
  · cases hread
  · dsimp only at hread
    split at hread
    · cases hread
    · split at hread
      · cases hread
      · next hfits =>
        rw [length_of_readContent hread]
        exact Nat.not_lt.1 hfits

end Frame

namespace Inbox

/-- What is in flight is within its bounds. -/
def WithinBounds (inbox : Inbox) : Prop :=
  ∃ count : Nat, inbox.assembler.Grown count

theorem withinBounds_fresh (source : Source) : WithinBounds { source } :=
  ⟨0, Assembler.grown_idle⟩

/-- A read keeps what is in flight within its bounds, and the message that it gives is not too
long. -/
theorem WithinBounds.read {inbox : Inbox} (hbounds : inbox.WithinBounds) :
    inbox.read.2.WithinBounds ∧
      ∀ message, inbox.read.1 = .ok message → message.payload.size ≤ maxMessageLength := by
  -- every frame but the last leaves a shorter stream to go on with
  induction hlength : inbox.source.unread.length using Nat.strongRecOn generalizing inbox with
  | ind length ih =>
      obtain ⟨count, hgrown⟩ := hbounds
      rw [read_eq]
      cases hframe : Frame.read inbox.source with
      | mk result rest =>
          cases result with
          | error cause => exact ⟨⟨count, hgrown⟩, nofun⟩
          | ok frame =>
              have hnext := hgrown.push frame
              have hfits := Frame.length_le_of_read hframe
              dsimp only
              cases hpush : inbox.assembler.push frame with
              | mk outcome after =>
                  rw [hpush] at hnext
                  cases outcome with
                  | error cause => exact ⟨⟨_, hnext⟩, nofun⟩
                  | ok found =>
                      cases found with
                      | some message =>
                          refine ⟨⟨_, hnext⟩, fun other hother => ?_⟩
                          rw [← Except.ok.inj hother]
                          exact hgrown.size_le hfits hpush
                      | none =>
                          have hshorter := Frame.unread_lt_of_read hframe
                          exact ih rest.unread.length (by omega) ⟨_, hnext⟩ rfl

/-- No message that is read is too long, whatever the reads before it gave. -/
theorem WithinBounds.size_le {inbox : Inbox} (hbounds : inbox.WithinBounds) {count : Nat}
    {message : Message} (hmessage : .ok message ∈ readTimes count inbox) :
    message.payload.size ≤ maxMessageLength := by
  induction count generalizing inbox with
  | zero => exact absurd hmessage List.not_mem_nil
  | succ count ih =>
      rcases List.mem_cons.1 hmessage with hfirst | hrest
      · exact hbounds.read.2 message hfirst.symm
      · exact ih hbounds.read.1 hrest

end Inbox

/-- **What is received can be sent on.**  Whatever frames came, taken or refused, what is in flight
is counted rightly, and is within what it declares, which is within the limit.  No frame is refused
because the message in flight was lost, although a chunk that is not refused at once goes on with one
whatever was in flight before; and for want of positions only a chunk behind 2^32 - 1 others of its
message is.  So whatever the stream was and whatever the reads before gave, a message that is read
is not too long; and in chunks of any size that is valid, it can be split, and is read again as the
same from the bytes that carry it. -/
theorem received_forwardable :
    (∀ (frames : List Frame) (assembly : Assembly),
      (Assembler.idle.pushAll frames).2 = .accumulating assembly →
      assembly.received = (assembly.chunks.map (·.size)).sum ∧
        assembly.received ≤ assembly.total.toNat ∧
        assembly.total.toNat ≤ maxMessageLength ∧
        assembly.nextPosition = assembly.chunks.length) ∧
    (∀ (frames : List Frame) (cause : NetError),
      .error cause ∈ (Assembler.idle.pushAll frames).1 →
      ∃ fault : ProtocolFault, cause = .protocol fault ∧
        fault.text ≠ ProtocolFault.lostSequence.text) ∧
    (∀ (assembler : Assembler) (chunk : Chunk), assembler.pushChunk chunk =
      if maxMessageLength < chunk.total.toNat then
        (.error (.protocol (.chunkedTooLong chunk.total.toNat)), assembler)
      else if assembler.isIdle ∧ chunk.position ≠ 0 then
        (.error (.protocol (.sequenceStart chunk.position.toNat)), assembler)
      else (assembler.opened chunk).goOn chunk) ∧
    (∀ (frames : List Frame) (frame : Frame),
      ((Assembler.idle.pushAll frames).2.push frame).1 = .error (.protocol .positionsExhausted) →
      ∃ assembly, (Assembler.idle.pushAll frames).2 = .accumulating assembly ∧
        assembly.chunks.length + 1 = UInt32.size) ∧
    ∀ (source : Source) (count : Nat) (message : Message),
      .ok message ∈ Inbox.readTimes count { source } →
      message.payload.size ≤ maxMessageLength ∧
        ∀ size : Nat, 1 ≤ size → size + chunkHeaderLength ≤ maxFrameLength →
          (message.split size).isOk ∧
            ∀ (follow : Source) (rest : Bytes), follow.IsSteady →
              follow.unread = message.wireBytes size ++ rest →
              (Inbox.read { source := follow }).1 = .ok message := by
  have hbounded : ∀ (frames : List Frame) (assembly : Assembly),
      (Assembler.idle.pushAll frames).2 = .accumulating assembly → assembly.Bounded := by
    intro frames assembly hstate
    have hgrown := Assembler.grown_idle.pushAll frames
    rw [hstate] at hgrown
    exact hgrown.1
  refine ⟨?_, ?_, Assembler.pushChunk_eq_goOn, ?_, ?_⟩
  · intro frames assembly hstate
    have hall := hbounded frames assembly hstate
    exact ⟨hall.received_eq, hall.received_le, hall.total_le, hall.nextPosition_eq⟩
  · intro frames cause hcause
    obtain ⟨fault, rfl, hfault⟩ := Assembler.ofChunks_of_pushAll hcause
    exact ⟨fault, rfl, hfault.text_ne⟩
  · intro frames frame hpush
    cases frame with
    | whole message => exact absurd hpush nofun
    | chunk chunk =>
        obtain ⟨assembly, hstate, hlast⟩ := Assembler.exists_of_positionsExhausted hpush
        rw [(hbounded frames assembly hstate).nextPosition_eq] at hlast
        exact ⟨assembly, hstate, hlast⟩
  · intro source count message hmessage
    have hsize := (Inbox.withinBounds_fresh source).size_le hmessage
    refine ⟨hsize, fun size hpos hfits => ?_⟩
    have hsplit := (message.split_isOk_iff size).2 ⟨hpos, hfits, hsize⟩
    refine ⟨hsplit, fun follow rest hsteady hunread => ?_⟩
    obtain ⟨next, hread, -, -⟩ := Inbox.read_wireBytes hsplit hsteady hunread
    rw [hread]

/-- The only chunk so far of a message of two bytes, with one of them and yet marked as the last. -/
def hasty : List Frame :=
  [.chunk ⟨3, 0, true, 2, .ofBytes [97]⟩]

/-- A chunk that is refused for coming too early as the last is in flight all the same, and not
lost; and a message of one byte that is read can be sent on in chunks of one byte. -/
theorem received_forwardable_hasty :
    (∃ assembly, (Assembler.idle.pushAll hasty).2 = .accumulating assembly ∧
      assembly.nextPosition = 1 ∧ assembly.received = (assembly.chunks.map (·.size)).sum ∧
      assembly.received ≤ assembly.total.toNat) ∧
    (∃ cause, .error cause ∈ (Assembler.idle.pushAll hasty).1 ∧
      ∃ fault : ProtocolFault, cause = .protocol fault ∧
        fault.text ≠ ProtocolFault.lostSequence.text) ∧
    .ok ⟨3, .ofBytes [97]⟩ ∈ Inbox.readTimes 1 { source := .ofBytes [3, 0, 1, 0, 0, 0, 97] } ∧
      (Message.split ⟨3, .ofBytes [97]⟩ 1).isOk := by
  obtain ⟨hcounted, hfaults, -, -, hreceived⟩ := received_forwardable
  have hread : .ok ⟨3, .ofBytes [97]⟩ ∈
      Inbox.readTimes 1 { source := .ofBytes [3, 0, 1, 0, 0, 0, 97] } := List.mem_singleton.2 rfl
  have hhasty := hcounted hasty _ rfl
  exact ⟨⟨_, rfl, rfl, hhasty.1, hhasty.2.1⟩,
    ⟨_, List.mem_singleton.2 rfl, hfaults hasty _ (List.mem_singleton.2 rfl)⟩, hread,
    ((hreceived _ 1 _ hread).2 1 (by decide) (by decide)).1⟩

end Wire

end Overlay
