import Overlay.Proofs.Wire.Arrival
import Overlay.Proofs.Wire.Grammar
import Overlay.Proofs.Wire.Receiving
import Overlay.Proofs.Wire.Rejection

/-!
# Streams in pieces, and streams that are cut off

How many frames a reader may take from a stream is no limit: each takes some
bytes, and they run out first.  Whoever ran into the end of a stream has left
nothing of it.  So the reads of a stream of messages that is cut off anywhere
give the messages whose last byte arrived, and from then on the end of the
stream.
-/

namespace Overlay

namespace Wire

/-- An exact read takes what it gives off the front of the stream, whatever the deliveries. -/
theorem Source.unread_of_readExact {source next : Source} {count : Nat} {taken : Bytes}
    (hread : source.readExact count = (.ok taken, next)) :
    source.unread = taken ++ next.unread ∧ taken.length = count := by
  fun_induction Source.readExact count source generalizing taken
  case case1 source =>
    obtain ⟨rfl, rfl⟩ : [] = taken ∧ source = next := by simpa using hread
    exact ⟨rfl, rfl⟩
  case case3 count fault rest hinterrupted ih => exact ih hread
  case case5 count bytes rest first left hfull =>
    obtain ⟨hfirst, rfl⟩ := Prod.mk.inj hread
    obtain rfl : first = taken := Except.ok.inj hfirst
    rw [unread_leftover, unread, ← List.append_assoc, List.take_append_drop]
    exact ⟨rfl, hfull⟩
  case case7 count bytes rest first hpart hsome more later hmore ih =>
    obtain ⟨htaken, rfl⟩ := Prod.mk.inj hread
    obtain rfl : first ++ more = taken := Except.ok.inj htaken
    obtain ⟨hunread, hlength⟩ := ih hmore
    -- the delivery is used up
    have hshort : bytes.length < count + 1 := by
      rw [List.length_take] at hpart
      omega
    have hall : first = bytes := List.take_of_length_le (Nat.le_of_lt hshort)
    rw [hall] at hlength ⊢
    rw [unread, hunread, List.append_assoc, List.length_append, hlength]
    exact ⟨rfl, by omega⟩
  all_goals cases hread

namespace Frame

/-- The content of a frame takes nothing but its bytes off the stream. -/
theorem unread_le_of_readContent {tag flag : UInt8} {length : Nat} {source next : Source}
    {frame : Frame} (hread : readContent tag flag length source = (.ok frame, next)) :
    next.unread.length ≤ source.unread.length := by
  rw [readContent] at hread
  split at hread
  · split at hread
    · cases hread
    · next payload after hpayload =>
      obtain ⟨-, rfl⟩ := Prod.mk.inj hread
      rw [(Source.unread_of_readExact hpayload).1, List.length_append]
      omega
  · split at hread
    · cases hread
    · split at hread
      · cases hread
      · next head rest hhead =>
        split at hread
        · cases hread
        · next data after hdata =>
          obtain ⟨-, rfl⟩ := Prod.mk.inj hread
          rw [(Source.unread_of_readExact hhead).1, (Source.unread_of_readExact hdata).1,
            List.length_append, List.length_append]
          omega

/-- A frame takes some bytes off the stream. -/
theorem unread_lt_of_read {source next : Source} {frame : Frame}
    (hread : read source = (.ok frame, next)) : next.unread.length < source.unread.length := by
  rw [read] at hread
  split at hread
  · cases hread
  · next head middle hhead =>
    obtain ⟨hunread, hlength⟩ := Source.unread_of_readExact hhead
    have hshorter : middle.unread.length < source.unread.length := by
      rw [hunread, List.length_append, hlength, headerLength]
      omega
    dsimp only at hread
    split at hread
    · cases hread
    · split at hread
      · cases hread
      · exact Nat.lt_of_le_of_lt (unread_le_of_readContent hread) hshorter

/-- What a frame leaves of a steady stream is steady. -/
theorem isSteady_of_read {source next : Source} (hsteady : source.IsSteady)
    {result : Except NetError Frame} (hread : read source = (result, next)) : next.IsSteady := by
  have hself : source.Alike source := ⟨hsteady, hsteady, rfl⟩
  obtain ⟨_, after, _, hafter, -, hnext⟩ := hself.readFrame
  obtain ⟨-, rfl⟩ := Prod.mk.inj (hread.symm.trans hafter)
  exact hnext.left

/-- Whoever ran into the end of a steady stream has left nothing of it. -/
theorem eq_nil_of_read_end {source next : Source} (hsteady : source.IsSteady)
    (hread : read source = (.error IoFault.endOfStream.toError, next)) : next = [] := by
  by_cases hlong : headerLength ≤ source.unread.length
  · obtain ⟨tag, flag, length, rest, hdeclares⟩ := exists_declares hlong
    rcases admissible_or_malformed flag length with hadmissible | ⟨fault, hmalformed⟩
    · by_cases hcontent : length ≤ rest.length
      · obtain ⟨frame, other, hok, -⟩ := read_eq_ok hsteady hdeclares hadmissible hcontent
        exact absurd (hread.symm.trans hok) nofun
      · have hshort := read_short hsteady hdeclares hadmissible (Nat.lt_of_not_le hcontent)
        exact congrArg Prod.snd (hread.symm.trans hshort)
    · obtain ⟨other, hrefused, -⟩ := read_malformed hsteady hdeclares hmalformed
      exact absurd (hread.symm.trans hrefused) nofun
  · exact congrArg Prod.snd (hread.symm.trans (read_headless hsteady (Nat.lt_of_not_le hlong)))

end Frame

end Wire

/-- The faults for which chunks are refused. -/
inductive ProtocolFault.OfChunks : ProtocolFault → Prop
  | tooLong (length : Nat) : OfChunks (.chunkedTooLong length)
  | starts (position : Nat) : OfChunks (.sequenceStart position)
  | interleaved (tag expected : Nat) : OfChunks (.interleaved tag expected)
  | misplaced (expected got : Nat) : OfChunks (.misplaced expected got)
  | changed (declared got : Nat) : OfChunks (.totalChanged declared got)
  | exceeds (total : Nat) : OfChunks (.exceedsTotal total)
  | mismatched (received declared : Nat) : OfChunks (.lengthMismatch received declared)
  | exhausted : OfChunks .positionsExhausted

namespace Wire

namespace Assembly

theorem ofChunks_of_refuse {assembly : Assembly} {chunk : Chunk} {fault : ProtocolFault}
    (hrefuse : assembly.refuse? chunk = some fault) : fault.OfChunks := by
  unfold refuse? at hrefuse
  split_ifs at hrefuse
  all_goals
    rw [← Option.some.inj hrefuse]
    constructor

theorem ofChunks_of_push {assembly : Assembly} {chunk : Chunk} {cause : NetError}
    {after : Assembler} (hpush : assembly.push chunk = (.error cause, after)) :
    ∃ fault : ProtocolFault, cause = .protocol fault ∧ fault.OfChunks := by
  rcases push_error hpush with ⟨fault, hrefuse, hcause, -⟩ | ⟨-, -, -, hcause, -⟩
  · exact ⟨fault, hcause, ofChunks_of_refuse hrefuse⟩
  · exact ⟨_, hcause, .mismatched _ _⟩

end Assembly

/-- And so are frames. -/
theorem Assembler.ofChunks_of_push {assembler after : Assembler} {frame : Frame}
    {cause : NetError} (hpush : assembler.push frame = (.error cause, after)) :
    ∃ fault : ProtocolFault, cause = .protocol fault ∧ fault.OfChunks := by
  obtain ⟨chunk, rfl, hchunk⟩ := exists_chunk_of_push_error hpush
  rcases pushChunk_cases assembler chunk with ⟨-, -, htarget⟩ | ⟨-, hearly⟩ | ⟨-, -, hearly⟩
  · rw [htarget] at hchunk
    exact Assembly.ofChunks_of_push hchunk
  · rw [hearly] at hchunk
    exact ⟨_, (Except.error.inj (Prod.mk.inj hchunk).1).symm, .tooLong _⟩
  · rw [hearly] at hchunk
    exact ⟨_, (Except.error.inj (Prod.mk.inj hchunk).1).symm, .starts _⟩

namespace Inbox

/-! ## Any number of frames -/

/-- More frames than a stream has bytes are never needed. -/
theorem readFrames_eq {fuel enough : Nat} {inbox : Inbox}
    (hfuel : inbox.source.unread.length < fuel) (henough : inbox.source.unread.length < enough) :
    inbox.readFrames fuel = inbox.readFrames enough := by
  induction fuel generalizing enough inbox with
  | zero => exact absurd hfuel (Nat.not_lt_zero _)
  | succ fuel ih =>
      obtain ⟨enough, rfl⟩ := Nat.exists_eq_succ_of_ne_zero
        (Nat.ne_of_gt (Nat.zero_lt_of_lt henough))
      rw [readFrames, readFrames]
      split
      · rfl
      · next frame next hread =>
        split
        · rfl
        · rfl
        · -- the frame completed nothing, and the stream is shorter
          have hshorter := Frame.unread_lt_of_read hread
          have hless : next.unread.length < fuel := by omega
          have hmore : next.unread.length < enough := by omega
          exact ih hless hmore

/-- A message is read frame by frame, as many as it takes. -/
theorem read_eq (inbox : Inbox) :
    inbox.read =
      match Frame.read inbox.source with
      | (.error cause, source) => (.error cause, { inbox with source })
      | (.ok frame, source) =>
        match inbox.assembler.push frame with
        | (.error cause, assembler) => (.error cause, ⟨assembler, source⟩)
        | (.ok (some message), assembler) => (.ok message, ⟨assembler, source⟩)
        | (.ok none, assembler) => read ⟨assembler, source⟩ := by
  rw [read, readFrames]
  cases hread : Frame.read inbox.source with
  | mk result next =>
      cases result with
      | error cause => rfl
      | ok frame =>
          dsimp only
          cases inbox.assembler.push frame with
          | mk pushed assembler =>
              cases pushed with
              | error cause => rfl
              | ok found =>
                  cases found with
                  | some message => rfl
                  | none =>
                      have hshorter := Frame.unread_lt_of_read hread
                      exact @readFrames_eq _ _ ⟨assembler, next⟩ hshorter (Nat.lt_succ_self _)

/-! ## The end of a stream -/

/-- A reader of a stream of which nothing is left stays where it is. -/
theorem read_nil (assembler : Assembler) :
    read ⟨assembler, []⟩ = (.error IoFault.endOfStream.toError, ⟨assembler, []⟩) :=
  rfl

/-- Whoever ran into the end of a steady stream has left nothing of it. -/
theorem source_of_read_end {inbox next : Inbox} (hsteady : inbox.source.IsSteady)
    (hread : inbox.read = (.error IoFault.endOfStream.toError, next)) : next.source = [] := by
  -- every frame but the last leaves a shorter stream to go on with
  induction hlength : inbox.source.unread.length using Nat.strongRecOn generalizing inbox with
  | ind length ih =>
      rw [read_eq] at hread
      cases hframe : Frame.read inbox.source with
      | mk result rest =>
          rw [hframe] at hread
          cases result with
          | error cause =>
              obtain ⟨hcause, rfl⟩ := Prod.mk.inj hread
              rw [Except.error.inj hcause] at hframe
              exact Frame.eq_nil_of_read_end hsteady hframe
          | ok frame =>
              dsimp only at hread
              split at hread
              · next cause assembler hpush =>
                obtain ⟨fault, rfl, -⟩ := Assembler.ofChunks_of_push hpush
                exact absurd (congrArg Prod.fst hread) nofun
              · exact absurd (congrArg Prod.fst hread) nofun
              · next assembler hpush =>
                have hshorter := Frame.unread_lt_of_read hframe
                refine ih rest.unread.length (by omega) ?_ hread rfl
                exact Frame.isSteady_of_read hsteady hframe

/-- Whoever ran into the end of a steady stream runs into it again and again. -/
theorem readTimes_end {inbox : Inbox} (hsteady : inbox.source.IsSteady)
    (hend : inbox.read.1 = .error IoFault.endOfStream.toError) (calls : Nat) :
    inbox.readTimes calls = List.replicate calls (.error IoFault.endOfStream.toError) := by
  induction calls generalizing inbox with
  | zero => rfl
  | succ calls ih =>
      have hnil : inbox.read.2.source = [] := source_of_read_end hsteady (Prod.ext hend rfl)
      have hnext : inbox.read.2.read.1 = .error IoFault.endOfStream.toError := by
        show (read ⟨inbox.read.2.assembler, inbox.read.2.source⟩).1 = _
        rw [hnil, read_nil]
      show inbox.read.1 :: readTimes calls inbox.read.2 = _
      rw [List.replicate_succ, ih (hnil ▸ Source.isSteady_nil) hnext, hend]

/-! ## Pieces -/

/-- An incoming side after so many reads in a row, whatever these gave. -/
def after : Nat → Inbox → Inbox
  | 0, inbox => inbox
  | calls + 1, inbox => after calls inbox.read.2

/-- Any number of reads leave streams alike that were alike before. -/
theorem after_alike (calls : Nat) (assembler : Assembler) {one other : Source}
    (halike : one.Alike other) :
    (after calls ⟨assembler, one⟩).source.Alike (after calls ⟨assembler, other⟩).source := by
  induction calls generalizing assembler one other with
  | zero => exact halike
  | succ calls ih =>
      obtain ⟨result, assembler', next, next', hone, hother, hnext⟩ := read_alike assembler halike
      simp only [after, hone, hother]
      exact ih assembler' hnext

/-- All messages up to the first failure are the same on streams that are alike. -/
theorem readAll_alike (fuel : Nat) (assembler : Assembler) {one other : Source}
    (halike : one.Alike other) :
    readAll fuel ⟨assembler, one⟩ = readAll fuel ⟨assembler, other⟩ := by
  induction fuel generalizing assembler one other with
  | zero => rfl
  | succ fuel ih =>
      obtain ⟨result, assembler', next, next', hone, hother, hnext⟩ := read_alike assembler halike
      simp only [readAll, hone, hother]
      cases result with
      | error cause => rfl
      | ok message =>
          show (_, _) = (_, _)
          rw [ih assembler' hnext]

/-! ## Streams that are cut off -/

/-- Among as many results as are wanted, how many ends of the stream follow makes no difference. -/
theorem take_append_replicate {calls ends ends' : Nat}
    (results : List (Except NetError Message)) (result : Except NetError Message)
    (hends : calls ≤ ends) (hends' : calls ≤ ends') :
    (results ++ List.replicate ends result).take calls =
      (results ++ List.replicate ends' result).take calls := by
  rw [List.take_append, List.take_append, List.take_replicate, List.take_replicate,
    Nat.min_eq_left (Nat.le_trans (Nat.sub_le _ _) hends),
    Nat.min_eq_left (Nat.le_trans (Nat.sub_le _ _) hends')]

end Inbox

/-- A message that can be sent in chunks of a size. -/
structure Parcel where
  message : Message
  size : Nat
  fits : (message.split size).isOk

/-- The bytes that carry a message. -/
def Parcel.bytes (parcel : Parcel) : Bytes :=
  parcel.message.wireBytes parcel.size

/-- A message is read frame by frame, so its bytes take some room. -/
theorem Parcel.length_bytes_pos (parcel : Parcel) : 0 < parcel.bytes.length := by
  refine Nat.pos_of_ne_zero fun hzero => ?_
  have hnothing : ([] : Bytes) = parcel.bytes ++ [] := by
    rw [List.append_nil, List.length_eq_zero_iff.1 hzero]
  obtain ⟨next, hread, -⟩ := Inbox.read_wireBytes parcel.fits Source.isSteady_nil hnothing
  exact absurd (hread.symm.trans (Inbox.read_nil .idle)) nofun

namespace Inbox

/-- So many messages arrive of those that were sent on a stream that is cut off. -/
structure Arrived (sent : List Parcel) (cut : Nat) (source : Source) (arrived : Nat) : Prop where
  le : arrived ≤ sent.length
  /-- Each takes some room. -/
  room : arrived ≤ source.unread.length
  /-- They are those whose last byte stands before the cut. -/
  whole : ∀ i < sent.length, i < arrived ↔
    ((sent.take (i + 1)).flatMap Parcel.bytes).length ≤ cut
  times : ∀ calls, readTimes calls { source } =
    ((sent.take arrived).map (fun parcel : Parcel => Except.ok parcel.message) ++
      List.replicate calls (Except.error IoFault.endOfStream.toError)).take calls
  all : ∀ fuel, arrived < fuel → readAll fuel { source } =
    ((sent.take arrived).map (·.message), IoFault.endOfStream.toError)

variable {sent : List Parcel} {cut : Nat} {source next : Source}

/-- Whoever runs into the end of the stream gets none. -/
theorem arrived_none (hsteady : source.IsSteady)
    (hend : (read { source }).1 = .error IoFault.endOfStream.toError)
    (hcut : ∀ i < sent.length, cut < ((sent.take (i + 1)).flatMap Parcel.bytes).length) :
    Arrived sent cut source 0 where
  le := Nat.zero_le _
  room := Nat.zero_le _
  whole := fun i hi => iff_of_false (Nat.not_lt_zero i) (Nat.not_le.2 (hcut i hi))
  times := fun calls => by
    rw [readTimes_end hsteady hend, List.take_zero, List.map_nil, List.nil_append,
      List.take_of_length_le (Nat.le_of_eq List.length_replicate)]
  all := fun fuel hfuel => by
    obtain ⟨fuel, rfl⟩ := Nat.exists_eq_succ_of_ne_zero (Nat.ne_of_gt hfuel)
    cases hread : read { source } with
    | mk result next =>
        rw [hread] at hend
        dsimp only at hend
        simp only [readAll, hread, hend, List.take_zero, List.map_nil]

/-- A message that was read comes before those that arrive behind it. -/
theorem Arrived.cons {parcel : Parcel} {arrived : Nat} (hwhole : parcel.bytes.length ≤ cut)
    (hread : read { source } = (.ok parcel.message, { source := next }))
    (hunread : source.unread.length = parcel.bytes.length + next.unread.length)
    (harrived : Arrived sent (cut - parcel.bytes.length) next arrived) :
    Arrived (parcel :: sent) cut source (arrived + 1) where
  le := Nat.succ_le_succ harrived.le
  room := by
    have hroom := harrived.room
    have hpos := parcel.length_bytes_pos
    omega
  whole := fun i hi => by
    cases i with
    | zero => simp [hwhole]
    | succ i =>
        rw [Nat.succ_lt_succ_iff, harrived.whole i (Nat.lt_of_succ_lt_succ hi),
          List.take_succ_cons, List.flatMap_cons, List.length_append]
        omega
  times := fun calls => by
    cases calls with
    | zero => rfl
    | succ calls =>
        simp only [readTimes, hread, harrived.times calls, List.take_succ_cons, List.map_cons,
          List.cons_append]
        exact congrArg _ (take_append_replicate _ _ (Nat.le_refl _) (Nat.le_succ _))
  all := fun fuel hfuel => by
    obtain ⟨fuel, rfl⟩ := Nat.exists_eq_succ_of_ne_zero (Nat.ne_of_gt (Nat.zero_lt_of_lt hfuel))
    simp only [readAll, hread, harrived.all fuel (Nat.lt_of_succ_lt_succ hfuel),
      List.take_succ_cons, List.map_cons]

/-- A reader of a stream of messages that is cut off gets those whose last byte arrived, and then
nothing but the end of the stream. -/
theorem exists_arrived (sent : List Parcel) (cut : Nat) (hsteady : source.IsSteady)
    (hunread : source.unread = (sent.flatMap Parcel.bytes).take cut) :
    ∃ arrived, Arrived sent cut source arrived := by
  induction sent generalizing cut source with
  | nil =>
      rw [List.flatMap_nil, List.take_nil] at hunread
      exact ⟨0, arrived_none hsteady (read_end hsteady hunread) nofun⟩
  | cons parcel sent ih =>
      rw [List.flatMap_cons] at hunread
      by_cases hwhole : parcel.bytes.length ≤ cut
      · -- the first message arrived, and the cut is behind it
        rw [List.take_append, List.take_of_length_le hwhole] at hunread
        obtain ⟨next, hread, hnext, hsteadyNext⟩ := read_wireBytes parcel.fits hsteady hunread
        obtain ⟨arrived, harrived⟩ := ih (cut - parcel.bytes.length) hsteadyNext hnext
        refine ⟨arrived + 1, harrived.cons hwhole hread ?_⟩
        rw [hunread, hnext, List.length_append]
      · -- the cut is within the first message
        have hcut : cut < parcel.bytes.length := Nat.lt_of_not_le hwhole
        rw [List.take_append_of_le_length (Nat.le_of_lt hcut)] at hunread
        have hend : (read { source }).1 = .error IoFault.endOfStream.toError := by
          refine read_cut parcel.fits hsteady (hunread ▸ List.take_prefix _ _) fun hall => ?_
          have hlength := congrArg List.length (hunread.symm.trans hall)
          rw [List.length_take] at hlength
          change min cut parcel.bytes.length = parcel.bytes.length at hlength
          omega
        refine ⟨0, arrived_none hsteady hend fun i _ => ?_⟩
        rw [List.take_succ_cons, List.flatMap_cons, List.length_append]
        omega

/-- **What is read depends on the bytes alone, and a cut stream gives whole messages.**  Streams
that hand out the same bytes, each in pieces and with interruptions of its own, give the same
results to any number of reads, leave the same bytes behind, and are drained alike.  A stream of
messages that is cut off anywhere gives, read after read, the messages whose last byte stands
before the cut, and from then on the end of the stream. -/
theorem reads_of_alike_and_of_cut :
    (∀ (assembler : Assembler) {one other : Source}, one.Alike other →
      (∀ calls,
        readTimes calls ⟨assembler, one⟩ = readTimes calls ⟨assembler, other⟩ ∧
        (after calls ⟨assembler, one⟩).source.unread =
          (after calls ⟨assembler, other⟩).source.unread) ∧
      drain one = drain other) ∧
    ∀ (sent : List Parcel) (cut : Nat) {source : Source}, source.IsSteady →
      source.unread = (sent.flatMap Parcel.bytes).take cut →
      ∃ arrived, arrived ≤ sent.length ∧
        (∀ i < sent.length, i < arrived ↔
          ((sent.take (i + 1)).flatMap Parcel.bytes).length ≤ cut) ∧
        (∀ calls, readTimes calls { source } =
          ((sent.take arrived).map (fun parcel : Parcel => Except.ok parcel.message) ++
            List.replicate calls (Except.error IoFault.endOfStream.toError)).take calls) ∧
        drain source = ((sent.take arrived).map (·.message), IoFault.endOfStream.toError) := by
  refine ⟨fun assembler one other halike => ⟨fun calls => ⟨?_, ?_⟩, ?_⟩, ?_⟩
  · exact readTimes_alike calls assembler halike
  · exact (after_alike calls assembler halike).unread_eq
  · rw [drain, drain, halike.unread_eq]
    exact readAll_alike _ .idle halike
  · intro sent cut source hsteady hunread
    obtain ⟨arrived, harrived⟩ := exists_arrived sent cut hsteady hunread
    exact ⟨arrived, harrived.le, harrived.whole, harrived.times,
      harrived.all _ (Nat.lt_succ_of_le harrived.room)⟩

/-- Of a message in two chunks and a short one, a cut within the second message leaves the first,
whether the bytes come at once or in pieces. -/
theorem reads_of_alike_and_of_cut_in_second :
    let first : Message := ⟨4, .ofBytes [1, 2, 3]⟩
    let chunk : Bytes := [4, 1, 11, 0, 0, 0, 0, 0, 0, 0, 0, 3, 0, 0, 0, 1, 2]
    let others : Bytes := [4, 1, 10, 0, 0, 0, 1, 0, 0, 0, 1, 3, 0, 0, 0, 3, 5, 0, 1]
    let pieces : Source := [.fault ⟨.interrupted, "signal"⟩, .bytes chunk,
      .fault ⟨.interrupted, "again"⟩, .bytes others]
    let whole : Source := [.bytes (chunk ++ others)]
    readTimes 2 { source := pieces } = readTimes 2 { source := whole } ∧
      readTimes 2 { source := whole } = [.ok first, .error IoFault.endOfStream.toError] ∧
      drain pieces = ([first], IoFault.endOfStream.toError) := by
  intro first chunk others pieces whole
  have hpieces : pieces.IsSteady := by
    simp [pieces, chunk, others, Source.IsSteady, Delivery.IsSteady]
  have hwhole : whole.IsSteady := by
    simp [whole, chunk, Source.IsSteady, Delivery.IsSteady]
  have halike : pieces.Alike whole := ⟨hpieces, hwhole, rfl⟩
  obtain ⟨hpair, hcut⟩ := reads_of_alike_and_of_cut
  obtain ⟨hcalls, hdrain⟩ := hpair .idle halike
  let sent : List Parcel := [⟨first, 2, rfl⟩, ⟨⟨5, .ofBytes [9]⟩, 2, rfl⟩]
  obtain ⟨arrived, -, hcount, htimes, hall⟩ := hcut sent 36 hwhole (by decide)
  have hfirst : 0 < arrived := (hcount 0 (by decide)).2 (by decide)
  have hsecond : ¬ 1 < arrived := fun hlt => absurd ((hcount 1 (by decide)).1 hlt) (by decide)
  obtain rfl : arrived = 1 := by omega
  exact ⟨(hcalls 2).1, htimes 2, hdrain.trans hall⟩

end Inbox

end Wire

end Overlay
