import Overlay.Proofs.Wire.Reassembly
import Overlay.Proofs.Wire.Reading
import Overlay.Wire.Split

/-!
# The frames of a message

A message can be split exactly if the size of chunks is in range and the
message is not too long.  What it is split into is one whole frame or the
chunks of a group that gives the message back, and every frame of it fits.
-/

namespace Overlay.Wire.Message

/-- A message can be split exactly if chunks of that size fit in frames and it is not too long. -/
theorem split_isOk_iff (message : Message) (size : Nat) :
    (message.split size).isOk ↔
      1 ≤ size ∧ size + chunkHeaderLength ≤ maxFrameLength ∧
        message.payload.size ≤ maxMessageLength := by
  rw [split]
  split_ifs with hsize hlong hshort
  · simp only [Except.isOk, Except.toBool, Bool.false_eq_true, false_iff]
    omega
  · simp only [Except.isOk, Except.toBool, Bool.false_eq_true, false_iff]
    omega
  · simp only [Except.isOk, Except.toBool, true_iff]
    omega
  · simp only [Except.isOk, Except.toBool, true_iff]
    omega

/-- The bytes of a chunk are those of the message between its bounds. -/
theorem bytes_chunkAt (message : Message) (size position : Nat) :
    (message.chunkAt size position).data.bytes =
      (message.payload.bytes.drop (position * size)).take size := by
  have hwidth : (position + 1) * size - position * size = size := by
    rw [Nat.succ_mul, Nat.add_sub_cancel_left]
  simp only [chunkAt, Payload.bytes, ByteArray.data_extract, Array.toList_extract,
    List.extract_eq_take_drop, hwidth]

theorem size_chunkAt_le (message : Message) (size position : Nat) :
    (message.chunkAt size position).data.size ≤ size := by
  rw [← Payload.length_bytes, bytes_chunkAt, List.length_take]
  exact Nat.min_le_left _ _

/-- The first chunks together are the beginning of the message. -/
theorem flatMap_chunkAt (message : Message) (size count : Nat) :
    ((List.range count).map (message.chunkAt size)).flatMap (·.data.bytes) =
      message.payload.bytes.take (count * size) := by
  induction count with
  | zero => simp
  | succ count ih =>
      rw [List.range_succ, List.map_append, List.flatMap_append, ih, Nat.succ_mul, List.take_add]
      simp [bytes_chunkAt]

/-- There are enough chunks for all of a message, and no more than it has bytes. -/
theorem chunkCount_bounds (message : Message) {size : Nat} (hsize : 1 ≤ size)
    (hlong : size < message.payload.size) :
    message.payload.size ≤ message.chunkCount size * size ∧
      1 ≤ message.chunkCount size ∧ message.chunkCount size ≤ message.payload.size := by
  -- the count is a quotient that is rounded up
  have hceil : message.chunkCount size * size + size > message.payload.size + (size - 1) := by
    have hdiv : message.payload.size + (size - 1) <
        (message.payload.size + (size - 1)) / size * size + size := Nat.lt_div_mul_add hsize
    rw [chunkCount]
    omega
  have hfloor : message.chunkCount size * size ≤ message.payload.size + (size - 1) :=
    Nat.div_mul_le_self _ _
  refine ⟨by omega, ?_, ?_⟩
  · rw [chunkCount]
    exact Nat.div_pos (by omega) hsize
  · rw [chunkCount]
    refine Nat.div_le_of_le_mul ?_
    have hgrow : message.payload.size + (size - 1) ≤ message.payload.size * size := by
      obtain ⟨more, rfl⟩ : ∃ more, size = more + 1 := ⟨size - 1, by omega⟩
      rw [Nat.mul_succ, Nat.add_sub_cancel]
      have hpos : 1 ≤ message.payload.size := by omega
      have hmul := Nat.mul_le_mul_right more hpos
      omega
    rwa [Nat.mul_comm] at hgrow

/-- The chunks of a message that is longer than one of them. -/
def chunkGroup (message : Message) (size : Nat) (hsize : 1 ≤ size)
    (hlong : size < message.payload.size) (hmax : message.payload.size ≤ maxMessageLength) :
    ChunkGroup :=
  have hbounds := message.chunkCount_bounds hsize hlong
  -- neither the positions nor the total wrap around in 32 bits
  have hword : maxMessageLength < UInt32.size := by decide
  have hposition (position : Nat) (hlt : position < message.chunkCount size) :
      (UInt32.ofNat position).toNat = position :=
    UInt32.toNat_ofNat_of_lt' (by omega)
  have htotal : (UInt32.ofNat message.payload.size).toNat = message.payload.size :=
    UInt32.toNat_ofNat_of_lt' (by omega)
  { tag := message.tag
    total := UInt32.ofNat message.payload.size
    chunks := (List.range (message.chunkCount size)).map (message.chunkAt size)
    nonempty := by
      rw [List.length_map, List.length_range]
      exact hbounds.2.1
    length_lt := by
      rw [List.length_map, List.length_range]
      omega
    total_le := by
      rw [htotal]
      exact hmax
    tags := by
      intro chunk hmem
      obtain ⟨position, -, rfl⟩ := List.mem_map.1 hmem
      rfl
    totals := by
      intro chunk hmem
      obtain ⟨position, -, rfl⟩ := List.mem_map.1 hmem
      rfl
    positions := by
      rw [List.map_map, List.length_map, List.length_range]
      refine (List.map_congr_left fun position hmem => ?_).trans (List.map_id _)
      exact hposition position (List.mem_range.1 hmem)
    ends := by
      obtain ⟨last, hlast⟩ : ∃ last, message.chunkCount size = last + 1 :=
        ⟨message.chunkCount size - 1, by omega⟩
      rw [List.map_map, List.length_map, List.length_range, hlast, Nat.add_sub_cancel,
        List.range_succ, List.map_append]
      congr 1
      · refine List.eq_replicate_iff.2 ⟨by simp, fun mark hmark => ?_⟩
        obtain ⟨position, hmem, rfl⟩ := List.mem_map.1 hmark
        have hlt := List.mem_range.1 hmem
        exact decide_eq_false (by omega)
      · simp [chunkAt, hlast]
    sizes := by
      rw [htotal, ← Payload.length_bytes message.payload, List.map_map]
      have hjoined := message.flatMap_chunkAt size (message.chunkCount size)
      rw [List.take_of_length_le (by rw [Payload.length_bytes]; exact hbounds.1)] at hjoined
      rw [← hjoined, List.length_flatMap, List.map_map]
      rfl }

theorem message_chunkGroup (message : Message) (size : Nat) (hsize : 1 ≤ size)
    (hlong : size < message.payload.size) (hmax : message.payload.size ≤ maxMessageLength) :
    (message.chunkGroup size hsize hlong hmax).message = message := by
  have hbounds := message.chunkCount_bounds hsize hlong
  have hjoined := message.flatMap_chunkAt size (message.chunkCount size)
  rw [List.take_of_length_le (by rw [Payload.length_bytes]; exact hbounds.1)] at hjoined
  simp only [ChunkGroup.message, chunkGroup]
  rw [hjoined, Payload.ofBytes_bytes]

/-- A message is split into one whole frame or into the chunks of a group that gives it back. -/
theorem split_ok {message : Message} {size : Nat} {frames : List Frame}
    (hsplit : message.split size = .ok frames) :
    frames = [.whole message] ∨
      ∃ group : ChunkGroup, group.message = message ∧ frames = group.chunks.map .chunk := by
  have hok : (message.split size).isOk := by
    rw [hsplit]
    rfl
  obtain ⟨hsize, -, hmax⟩ := (message.split_isOk_iff size).1 hok
  rw [split] at hsplit
  split_ifs at hsplit with hbad hlong hshort
  · exact Or.inl (Except.ok.inj hsplit).symm
  · refine Or.inr ⟨message.chunkGroup size hsize (Nat.lt_of_not_le hshort) hmax,
      message.message_chunkGroup size hsize _ hmax, ?_⟩
    rw [← Except.ok.inj hsplit, chunkGroup, List.map_map]
    rfl

theorem length_le_of_split {message : Message} {size : Nat} {frames : List Frame}
    (hsplit : message.split size = .ok frames) :
    ∀ frame ∈ frames, frame.length ≤ maxFrameLength := by
  have hok : (message.split size).isOk := by
    rw [hsplit]
    rfl
  obtain ⟨-, hfits, -⟩ := (message.split_isOk_iff size).1 hok
  intro frame hmem
  rw [split] at hsplit
  split_ifs at hsplit with hbad hlong hshort
  · rw [← Except.ok.inj hsplit] at hmem
    rw [List.mem_singleton.1 hmem, Frame.length]
    omega
  · rw [← Except.ok.inj hsplit] at hmem
    obtain ⟨position, -, rfl⟩ := List.mem_map.1 hmem
    rw [Frame.length]
    exact Nat.le_trans (Nat.add_le_add_right (message.size_chunkAt_le size position) _) hfits

end Overlay.Wire.Message
