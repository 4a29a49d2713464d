import Overlay.Proofs.Wire.Splitting
import Overlay.Wire.Inbox

/-!
# Reading what was sent

The frames of a message, taken by an idle assembler, give nothing until the
last of them, which gives the message and leaves the assembler idle.  So a
reader of the bytes of some messages gives these messages back, on any steady
stream, and bytes that stop within a message end in the end-of-stream failure.
-/

namespace Overlay.Wire

/-- The frames, taken one after the other, complete a message with the last one and leave the
assembler idle. -/
def Assembler.Completes (assembler : Assembler) (frames : List Frame) (message : Message) : Prop :=
  frames ≠ [] ∧
    assembler.pushAll frames =
      (List.replicate (frames.length - 1) (.ok none) ++ [.ok (some message)], .idle)

namespace Assembler

/-- A frame that completes a message is the only one. -/
theorem Completes.of_singleton {assembler : Assembler} {frame : Frame} {message : Message}
    (hcompletes : assembler.Completes [frame] message) :
    assembler.push frame = (.ok (some message), .idle) := by
  obtain ⟨-, hpush⟩ := hcompletes
  simp only [pushAll, List.length_singleton, Nat.sub_self, List.replicate_zero, List.nil_append,
    Prod.mk.injEq, List.cons.injEq, and_true] at hpush
  exact Prod.ext hpush.1 hpush.2

/-- A frame with others behind it gives nothing, and they complete the message. -/
theorem Completes.of_cons {assembler : Assembler} {frame next : Frame} {frames : List Frame}
    {message : Message} (hcompletes : assembler.Completes (frame :: next :: frames) message) :
    ∃ after, assembler.push frame = (.ok none, after) ∧
      after.Completes (next :: frames) message := by
  obtain ⟨-, hpush⟩ := hcompletes
  rw [pushAll, List.length_cons, Nat.add_sub_cancel, List.length_cons, List.replicate_succ,
    List.cons_append, Prod.mk.injEq, List.cons.injEq] at hpush
  obtain ⟨⟨hfirst, hresults⟩, hlast⟩ := hpush
  refine ⟨(assembler.push frame).2, Prod.ext hfirst rfl, List.cons_ne_nil _ _, ?_⟩
  rw [List.length_cons, Nat.add_sub_cancel]
  exact Prod.ext hresults hlast

/-- The outcomes of chunks among which no whole frame stands are those of their groups. -/
theorem interleave_chunks (chunks : List Chunk) (outcomes : List (Option Message))
    (hlength : outcomes.length = chunks.length) :
    interleave (chunks.map .chunk) outcomes = outcomes := by
  induction chunks generalizing outcomes with
  | nil =>
      rw [List.length_eq_zero_iff.1 hlength]
      rfl
  | cons chunk chunks ih =>
      cases outcomes with
      | nil => exact absurd hlength (Nat.succ_ne_zero _).symm
      | cons outcome outcomes =>
          rw [List.map_cons, interleave, ih outcomes (Nat.succ.inj hlength)]

theorem completes_group (group : ChunkGroup) :
    Assembler.idle.Completes (group.chunks.map .chunk) group.message := by
  have hpos := group.nonempty
  have hchunks : [] ++ (group.chunks.map Frame.chunk).filterMap Frame.chunk? =
      [group].flatMap ChunkGroup.chunks := by
    have hself : (Frame.chunk? ∘ Frame.chunk) = some := rfl
    rw [List.nil_append, List.filterMap_map, hself, List.filterMap_some, List.flatMap_singleton]
  have hcount : group.outcomes.length = group.chunks.length := by
    rw [ChunkGroup.outcomes, List.length_append, List.length_replicate, List.length_singleton]
    omega
  obtain ⟨hresults, hlast⟩ := hasOpen_idle.pushAll_groups (group.chunks.map .chunk) [group] hchunks
  refine ⟨?_, Prod.ext ?_ hlast⟩
  · rw [Ne, List.map_eq_nil_iff]
    exact List.ne_nil_of_length_pos hpos
  · rw [hresults, List.flatMap_singleton, List.length_nil, List.drop_zero,
      interleave_chunks _ _ hcount, ChunkGroup.outcomes]
    simp

/-- What a message is split into completes it. -/
theorem completes_split {message : Message} {size : Nat} {frames : List Frame}
    (hsplit : message.split size = .ok frames) : Assembler.idle.Completes frames message := by
  rcases Message.split_ok hsplit with rfl | ⟨group, rfl, rfl⟩
  · exact ⟨List.cons_ne_nil _ _, rfl⟩
  · exact completes_group group

end Assembler

namespace Inbox

/-- Frames that complete a message are read as this message, whatever follows them. -/
theorem readFrames_complete {frames : List Frame} {assembler : Assembler} {message : Message}
    (hcompletes : assembler.Completes frames message)
    (hfits : ∀ frame ∈ frames, frame.length ≤ maxFrameLength) {source : Source}
    (hsteady : source.IsSteady) {rest : Bytes}
    (hunread : source.unread = frames.flatMap Frame.bytes ++ rest) {fuel : Nat}
    (hfuel : frames.length ≤ fuel) :
    ∃ next : Source, readFrames fuel ⟨assembler, source⟩ = (.ok message, ⟨.idle, next⟩) ∧
      next.unread = rest ∧ next.IsSteady := by
  -- the assembler varies, since each frame but the last leaves it with a message in flight
  induction frames generalizing assembler source fuel with
  | nil => exact absurd rfl hcompletes.1
  | cons frame frames ih =>
      rw [List.flatMap_cons, List.append_assoc] at hunread
      obtain ⟨fuel, rfl⟩ := Nat.exists_eq_succ_of_ne_zero (Nat.ne_of_gt (Nat.lt_of_lt_of_le
        (Nat.succ_pos frames.length) hfuel))
      obtain ⟨next, hread, hnext, hsteadyNext⟩ :=
        Frame.read_bytes frame (hfits frame List.mem_cons_self) hsteady hunread
      cases frames with
      | nil =>
          refine ⟨next, ?_, hnext, hsteadyNext⟩
          simp only [readFrames, hread, hcompletes.of_singleton]
      | cons second frames =>
          obtain ⟨after, hpush, hcompletesRest⟩ := hcompletes.of_cons
          have hfitsRest := fun other hother => hfits other (List.mem_cons_of_mem frame hother)
          obtain ⟨last, hreadRest, hlast, hsteadyLast⟩ :=
            ih hcompletesRest hfitsRest hsteadyNext hnext (Nat.le_of_succ_le_succ hfuel)
          refine ⟨last, ?_, hlast, hsteadyLast⟩
          simp only [readFrames, hread, hpush, hreadRest]

/-- Bytes that stop within frames that would complete a message end in the end-of-stream failure. -/
theorem readFrames_cut {frames : List Frame} {assembler : Assembler} {message : Message}
    (hcompletes : assembler.Completes frames message)
    (hfits : ∀ frame ∈ frames, frame.length ≤ maxFrameLength) {source : Source}
    (hsteady : source.IsSteady) (hstarts : source.unread <+: frames.flatMap Frame.bytes)
    (hcut : source.unread ≠ frames.flatMap Frame.bytes) (fuel : Nat) :
    (readFrames fuel ⟨assembler, source⟩).1 = .error IoFault.endOfStream.toError := by
  induction frames generalizing assembler source fuel with
  | nil => exact absurd rfl hcompletes.1
  | cons frame frames ih =>
      cases fuel with
      | zero => rfl
      | succ fuel =>
          have hframe := hfits frame List.mem_cons_self
          rw [List.flatMap_cons] at hstarts hcut
          by_cases hshort : source.unread.length < frame.bytes.length
          · -- the bytes stop within the first frame
            have hstartsFrame : source.unread <+: frame.bytes :=
              List.prefix_of_prefix_length_le hstarts (List.prefix_append _ _) (Nat.le_of_lt hshort)
            rw [readFrames, Frame.read_cut frame hframe hsteady hstartsFrame hshort]
          · -- the first frame is there, and the bytes stop behind it
            obtain ⟨rest, hrest⟩ : ∃ rest, frame.bytes ++ rest = source.unread :=
              List.prefix_of_prefix_length_le (List.prefix_append _ _) hstarts
                (Nat.le_of_not_lt hshort)
            rw [← hrest] at hstarts hcut
            have hstartsRest := (List.prefix_append_right_inj _).1 hstarts
            have hcutRest : rest ≠ frames.flatMap Frame.bytes := fun hall => hcut (by rw [hall])
            obtain ⟨next, hread, hnext, hsteadyNext⟩ :=
              Frame.read_bytes frame hframe hsteady hrest.symm
            cases frames with
            | nil => exact absurd (List.prefix_nil.1 hstartsRest) hcutRest
            | cons second frames =>
                obtain ⟨after, hpush, hcompletesRest⟩ := hcompletes.of_cons
                have hfitsRest := fun other hother => hfits other (List.mem_cons_of_mem frame hother)
                rw [← hnext] at hstartsRest hcutRest
                simp only [readFrames, hread, hpush]
                exact ih hcompletesRest hfitsRest hsteadyNext hstartsRest hcutRest fuel

private theorem length_le_flatMap_bytes (frames : List Frame) :
    frames.length ≤ (frames.flatMap Frame.bytes).length := by
  induction frames with
  | nil => exact Nat.zero_le _
  | cons frame frames ih =>
      have hpos : 1 ≤ frame.bytes.length := by
        rw [Frame.length_bytes]
        exact Nat.le_trans (by decide) (Nat.le_add_right headerLength _)
      rw [List.flatMap_cons, List.length_append, List.length_cons]
      omega

/-- A message that was sent is read, whatever follows it. -/
theorem read_wireBytes {message : Message} {size : Nat} (hsplit : (message.split size).isOk)
    {source : Source} (hsteady : source.IsSteady) {rest : Bytes}
    (hunread : source.unread = message.wireBytes size ++ rest) :
    ∃ next : Source, read { source } = (.ok message, { source := next }) ∧
      next.unread = rest ∧ next.IsSteady := by
  cases hframes : message.split size with
  | error cause => simp [hframes, Except.isOk, Except.toBool] at hsplit
  | ok frames =>
      simp only [Message.wireBytes, hframes] at hunread
      have hcount : frames.length ≤ source.unread.length + 1 := by
        have hle := length_le_flatMap_bytes frames
        rw [hunread, List.length_append]
        omega
      exact readFrames_complete (Assembler.completes_split hframes)
        (Message.length_le_of_split hframes) hsteady hunread hcount

/-- Bytes that stop within a message end in the end-of-stream failure. -/
theorem read_cut {message : Message} {size : Nat} (hsplit : (message.split size).isOk)
    {source : Source} (hsteady : source.IsSteady)
    (hstarts : source.unread <+: message.wireBytes size)
    (hcut : source.unread ≠ message.wireBytes size) :
    (read { source }).1 = .error IoFault.endOfStream.toError := by
  cases hframes : message.split size with
  | error cause => simp [hframes, Except.isOk, Except.toBool] at hsplit
  | ok frames =>
      simp only [Message.wireBytes, hframes] at hstarts hcut
      exact readFrames_cut (Assembler.completes_split hframes)
        (Message.length_le_of_split hframes) hsteady hstarts hcut _

/-- A stream with nothing left ends in the end-of-stream failure. -/
theorem read_end {source : Source} (hsteady : source.IsSteady) (hunread : source.unread = []) :
    (read { source }).1 = .error IoFault.endOfStream.toError := by
  have hshort : source.unread.length < headerLength := by
    rw [hunread]
    decide
  rw [read, readFrames, Frame.read, Source.readExact_of_lt hsteady hshort]

end Inbox

end Overlay.Wire
