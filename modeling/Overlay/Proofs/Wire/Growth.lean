import Overlay.Proofs.Wire.Rejection

/-!
# How far reassembly grows

The message in flight has no more data than it declares, and so it has no more chunks with data
than it declares bytes.  Nothing limits the chunks without data: they are taken until the positions
have run out, after 2^32 - 1 of them (`Assembler.push_of_hollowRun`).  The bounds that hold count
them.

The invariant is `Assembly.Bounded`, and `Assembler.Grown` carries it over a run together with the
number of chunks without data.
-/

namespace Overlay.Wire

/-- Whether a frame is a chunk without data. -/
def Frame.isEmptyChunk : Frame → Bool
  | .whole _ => false
  | .chunk part => part.data.size = 0

namespace Assembly

/-- How many chunks without data were received. -/
def empties (assembly : Assembly) : Nat :=
  assembly.chunks.countP (·.size = 0)

/-- What was received of a message is within what it declares, and is counted rightly. -/
structure Bounded (assembly : Assembly) : Prop where
  total_le : assembly.total.toNat ≤ maxMessageLength
  received_le : assembly.received ≤ assembly.total.toNat
  received_eq : assembly.received = (assembly.chunks.map (·.size)).sum
  nextPosition_eq : assembly.nextPosition = assembly.chunks.length
  nextPosition_lt : assembly.nextPosition < UInt32.size

theorem bounded_start (tag : UInt8) {total : UInt32} (htotal : total.toNat ≤ maxMessageLength) :
    (start tag total).Bounded where
  total_le := htotal
  received_le := Nat.zero_le _
  received_eq := rfl
  nextPosition_eq := rfl
  nextPosition_lt := Nat.zero_lt_of_lt (by decide : 1 < UInt32.size)

theorem Bounded.add {assembly : Assembly} (hbounded : assembly.Bounded) {chunk : Chunk}
    (haccepts : assembly.refuse? chunk = none) : (assembly.add chunk).Bounded := by
  obtain ⟨-, -, -, hroom, hlast⟩ := (refuse?_eq_none_iff _ _).1 haccepts
  have hlt := hbounded.nextPosition_lt
  constructor
  · exact hbounded.total_le
  · exact hroom
  · simp [Assembly.add, hbounded.received_eq, Nat.add_comm]
  · simp [Assembly.add, hbounded.nextPosition_eq]
  · show assembly.nextPosition + 1 < UInt32.size
    omega

/-- Every chunk has data or is counted as one without. -/
theorem length_le_sizes (parts : List Payload) :
    parts.length ≤ (parts.map (·.size)).sum + parts.countP (·.size = 0) := by
  induction parts with
  | nil => exact Nat.zero_le _
  | cons part parts ih =>
      simp only [List.length_cons, List.map_cons, List.sum_cons, List.countP_cons,
        decide_eq_true_eq]
      split_ifs with hempty
      · omega
      · omega

theorem Bounded.length_le {assembly : Assembly} (hbounded : assembly.Bounded) :
    assembly.chunks.length ≤ assembly.total.toNat + assembly.empties := by
  have hlength := length_le_sizes assembly.chunks
  have hreceived := hbounded.received_le
  rw [hbounded.received_eq] at hreceived
  unfold empties
  omega

theorem empties_add (assembly : Assembly) (chunk : Chunk) :
    (assembly.add chunk).empties =
      assembly.empties + if (Frame.chunk chunk).isEmptyChunk then 1 else 0 := by
  unfold empties
  exact List.countP_cons

/-- A chunk that keeps every other rule is refused once the positions have run out. -/
theorem refuse?_eq_positionsExhausted_iff (assembly : Assembly) (chunk : Chunk) :
    assembly.refuse? chunk = some .positionsExhausted ↔
      chunk.tag = assembly.tag ∧ chunk.position.toNat = assembly.nextPosition ∧
        chunk.total = assembly.total ∧
        assembly.received + chunk.data.size ≤ assembly.total.toNat ∧
        assembly.nextPosition + 1 = UInt32.size := by
  rw [refuse?]
  split_ifs with htag hposition htotal hexceeds hpositions
  · simp [htag]
  · simp [hposition]
  · simp [htotal]
  · simp [Nat.not_le.2 hexceeds]
  · simp only [ne_eq, Decidable.not_not] at htag hposition htotal
    simp [htag, hposition, htotal, hpositions, Nat.not_lt.1 hexceeds]
  · simp [hpositions]

theorem refuse?_of_push {assembly : Assembly} {chunk : Chunk}
    (hpush : (assembly.push chunk).1 = .error (.protocol .positionsExhausted)) :
    assembly.refuse? chunk = some .positionsExhausted := by
  have hresult : assembly.push chunk = (.error (.protocol .positionsExhausted), _) :=
    Prod.ext hpush rfl
  rcases push_error hresult with ⟨fault, hrefuse, hcause, -⟩ | ⟨-, -, -, hcause, -⟩
  · rw [hrefuse, ← NetError.protocol.inj hcause]
  · exact ProtocolFault.noConfusion (NetError.protocol.inj hcause)

end Assembly

namespace Assembler

/-- The message in flight is within its bounds, with at most so many chunks without data. -/
def Grown (count : Nat) : Assembler → Prop
  | .idle => True
  | .accumulating assembly => assembly.Bounded ∧ assembly.empties ≤ count

theorem grown_idle : idle.Grown 0 :=
  trivial

theorem Grown.mono {assembler : Assembler} {count more : Nat} (hgrown : assembler.Grown count)
    (hle : count ≤ more) : assembler.Grown more := by
  cases assembler with
  | idle => trivial
  | accumulating assembly => exact ⟨hgrown.1, Nat.le_trans hgrown.2 hle⟩

theorem Grown.target {assembler : Assembler} {count : Nat} (hgrown : assembler.Grown count)
    {chunk : Chunk} (htotal : chunk.total.toNat ≤ maxMessageLength) :
    (assembler.target chunk).Bounded ∧ (assembler.target chunk).empties ≤ count := by
  cases assembler with
  | idle => exact ⟨Assembly.bounded_start chunk.tag htotal, Nat.zero_le count⟩
  | accumulating assembly => exact hgrown

/-- What a chunk, taken or refused, makes of an assembler. -/
theorem pushChunk_snd (assembler : Assembler) (chunk : Chunk) :
    (assembler.pushChunk chunk).2 = assembler ∨ (assembler.pushChunk chunk).2 = .idle ∨
      chunk.total.toNat ≤ maxMessageLength ∧
        ((assembler.pushChunk chunk).2 = .accumulating (.start chunk.tag chunk.total) ∨
          (assembler.target chunk).refuse? chunk = none ∧
            (assembler.pushChunk chunk).2 = .accumulating ((assembler.target chunk).add chunk)) := by
  cases hpush : assembler.pushChunk chunk with
  | mk result after =>
      cases result with
      | error cause =>
          rcases pushChunk_error hpush with ⟨rfl, -⟩ | ⟨hover, -, rfl⟩ | ⟨hshort, -, rfl⟩
          · exact Or.inl rfl
          · exact Or.inr (Or.inr ⟨hover.total_le, Or.inl rfl⟩)
          · exact Or.inr (Or.inr ⟨hshort.total_le, Or.inr ⟨hshort.accepts, rfl⟩⟩)
      | ok outcome =>
          obtain ⟨htotal, haccepts, htarget⟩ := pushChunk_ok hpush
          rcases (Assembly.push_ok htarget).2 with ⟨-, -, rfl⟩ | ⟨-, -, -, rfl⟩
          · exact Or.inr (Or.inr ⟨htotal, Or.inr ⟨haccepts, rfl⟩⟩)
          · exact Or.inr (Or.inl rfl)

/-- A frame keeps an assembler within its bounds, and is itself at most one more chunk without
data. -/
theorem Grown.push {assembler : Assembler} {count : Nat} (hgrown : assembler.Grown count)
    (frame : Frame) :
    (assembler.push frame).2.Grown (count + if frame.isEmptyChunk then 1 else 0) := by
  cases frame with
  | whole message => exact hgrown.mono (Nat.le_add_right _ _)
  | chunk chunk =>
      show Grown _ (assembler.pushChunk chunk).2
      rcases pushChunk_snd assembler chunk with hsame | hidle | ⟨htotal, hopened | ⟨haccepts, hadded⟩⟩
      · rw [hsame]
        exact hgrown.mono (Nat.le_add_right _ _)
      · rw [hidle]
        trivial
      · rw [hopened]
        exact ⟨Assembly.bounded_start chunk.tag htotal, Nat.zero_le _⟩
      · obtain ⟨hbounded, hempties⟩ := hgrown.target htotal
        rw [hadded]
        refine ⟨hbounded.add haccepts, ?_⟩
        rw [Assembly.empties_add]
        exact Nat.add_le_add_right hempties _

/-- A run keeps an assembler within its bounds. -/
theorem Grown.pushAll {assembler : Assembler} {count : Nat} (hgrown : assembler.Grown count)
    (frames : List Frame) :
    (assembler.pushAll frames).2.Grown (count + frames.countP Frame.isEmptyChunk) := by
  induction frames generalizing assembler count with
  | nil => exact hgrown
  | cons frame frames ih =>
      have hrest := ih (hgrown.push frame)
      rw [List.countP_cons, Nat.add_comm (frames.countP _), ← Nat.add_assoc]
      exact hrest

/-- A chunk is refused for want of positions only by a message that has used them all. -/
theorem exists_of_positionsExhausted {assembler : Assembler} {chunk : Chunk}
    (hpush : (assembler.pushChunk chunk).1 = .error (.protocol .positionsExhausted)) :
    ∃ assembly : Assembly, assembler = .accumulating assembly ∧
      assembly.nextPosition + 1 = UInt32.size := by
  rcases pushChunk_cases assembler chunk with ⟨-, -, htarget⟩ | ⟨-, hearly⟩ | ⟨-, -, hearly⟩
  · rw [htarget] at hpush
    obtain ⟨-, -, -, -, hlast⟩ :=
      (Assembly.refuse?_eq_positionsExhausted_iff _ _).1 (Assembly.refuse?_of_push hpush)
    cases assembler with
    | idle => exact absurd (show 0 + 1 = UInt32.size from hlast) (by decide)
    | accumulating assembly => exact ⟨assembly, rfl, hlast⟩
  · simp [hearly] at hpush
  · simp [hearly] at hpush

/-- A message within its bounds uses up the positions only with chunks without data. -/
theorem Grown.exists_of_exhausted {assembler : Assembler} {count : Nat}
    (hgrown : assembler.Grown count) {frame : Frame}
    (hpush : (assembler.push frame).1 = .error (.protocol .positionsExhausted)) :
    ∃ assembly, assembler = .accumulating assembly ∧
      UInt32.size ≤ assembly.total.toNat + assembly.empties + 1 := by
  cases frame with
  | whole message => simp [Assembler.push] at hpush
  | chunk chunk =>
      obtain ⟨assembly, rfl, hlast⟩ := exists_of_positionsExhausted hpush
      have hbounded : assembly.Bounded := hgrown.1
      refine ⟨assembly, rfl, ?_⟩
      rw [← hlast, hbounded.nextPosition_eq]
      exact Nat.succ_le_succ hbounded.length_le

/-! ### Chunks without data -/

end Assembler

/-- A chunk without data at a position. -/
def Chunk.hollow (tag : UInt8) (total : UInt32) (position : Nat) : Chunk where
  tag
  position := UInt32.ofNat position
  isLast := false
  total
  data := ByteArray.empty

/-- So many chunks without data, one after the other, from a position on. -/
def hollowRun (tag : UInt8) (total : UInt32) (start count : Nat) : List Frame :=
  (List.range' start count).map fun position => .chunk (.hollow tag total position)

/-- A message of which so many chunks without data were received. -/
def Assembly.hollow (tag : UInt8) (total : UInt32) (count : Nat) : Assembly where
  tag
  total
  nextPosition := count
  received := 0
  chunks := List.replicate count ByteArray.empty

namespace Assembly

theorem push_hollow (tag : UInt8) (total : UInt32) {count : Nat}
    (hcount : count + 1 < UInt32.size) :
    (hollow tag total count).push (.hollow tag total count) =
      (.ok none, .accumulating (hollow tag total (count + 1))) := by
  have hposition : (UInt32.ofNat count).toNat = count :=
    UInt32.toNat_ofNat_of_lt' (Nat.lt_of_succ_lt hcount)
  have haccepts : (hollow tag total count).refuse? (.hollow tag total count) = none :=
    (refuse?_eq_none_iff _ _).2 ⟨rfl, hposition, rfl, Nat.zero_le _, Nat.ne_of_lt hcount⟩
  unfold push
  rw [haccepts]
  rfl

theorem push_hollow_last (tag : UInt8) (total : UInt32) {count : Nat}
    (hcount : count + 1 = UInt32.size) :
    (hollow tag total count).push (.hollow tag total count) =
      (.error (.protocol .positionsExhausted), .accumulating (hollow tag total count)) := by
  have hposition : (UInt32.ofNat count).toNat = count :=
    UInt32.toNat_ofNat_of_lt' (by omega)
  have hrefuse : (hollow tag total count).refuse? (.hollow tag total count) =
      some .positionsExhausted :=
    (refuse?_eq_positionsExhausted_iff _ _).2 ⟨rfl, hposition, rfl, Nat.zero_le _, hcount⟩
  unfold push
  rw [hrefuse]

end Assembly

namespace Assembler

theorem push_accumulating (assembly : Assembly) {chunk : Chunk}
    (htotal : chunk.total.toNat ≤ maxMessageLength) :
    (accumulating assembly).push (.chunk chunk) = assembly.push chunk :=
  pushChunk_eq_push htotal nofun

/-- Chunks without data are taken and kept, as long as there are positions. -/
theorem pushAll_hollowRun (tag : UInt8) {total : UInt32}
    (htotal : total.toNat ≤ maxMessageLength) {start count : Nat}
    (hlt : start + count < UInt32.size) :
    (accumulating (.hollow tag total start)).pushAll (hollowRun tag total start count) =
      (List.replicate count (.ok none), .accumulating (.hollow tag total (start + count))) := by
  induction count generalizing start with
  | zero => rfl
  | succ count ih =>
      have hfirst : (accumulating (.hollow tag total start)).push
            (.chunk (.hollow tag total start)) =
          (.ok none, .accumulating (.hollow tag total (start + 1))) := by
        rw [push_accumulating _ htotal]
        exact Assembly.push_hollow tag total (by omega)
      have hrest := ih (by omega : start + 1 + count < UInt32.size)
      have hrun : hollowRun tag total start (count + 1) =
          .chunk (.hollow tag total start) :: hollowRun tag total (start + 1) count := rfl
      rw [hrun, pushAll, hfirst]
      simp only [hrest, List.replicate_succ]
      rw [Nat.add_assoc, Nat.add_comm 1]

/-- A fresh assembler takes them as well. -/
theorem pushAll_idle_hollowRun (tag : UInt8) {total : UInt32}
    (htotal : total.toNat ≤ maxMessageLength) {count : Nat} (hlt : count + 1 < UInt32.size) :
    idle.pushAll (hollowRun tag total 0 (count + 1)) =
      (List.replicate (count + 1) (.ok none), .accumulating (.hollow tag total (count + 1))) := by
  have hfirst : idle.push (.chunk (.hollow tag total 0)) =
      (accumulating (.hollow tag total 0)).push (.chunk (.hollow tag total 0)) := by
    rw [push_accumulating _ htotal]
    exact pushChunk_eq_push htotal fun _ => rfl
  have hsame : idle.pushAll (hollowRun tag total 0 (count + 1)) =
      (accumulating (.hollow tag total 0)).pushAll (hollowRun tag total 0 (count + 1)) := by
    unfold hollowRun
    rw [List.range'_succ, List.map_cons, pushAll, pushAll, hfirst]
  rw [hsame, pushAll_hollowRun tag htotal (by omega), Nat.zero_add]

/-- Once it holds a chunk without data for every position but the last, an assembler has no position
for another. -/
theorem push_of_hollowRun (tag : UInt8) {total : UInt32}
    (htotal : total.toNat ≤ maxMessageLength) {count : Nat} (hcount : count + 2 = UInt32.size) :
    ((idle.pushAll (hollowRun tag total 0 (count + 1))).2.push
        (.chunk (.hollow tag total (count + 1)))).1 =
      .error (.protocol .positionsExhausted) := by
  rw [pushAll_idle_hollowRun tag htotal (by omega), push_accumulating _ htotal,
    Assembly.push_hollow_last tag total hcount]

/-- **How far a message in flight grows.**  After any frames, what is held is counted rightly, and
there are at most as many chunks as bytes declared and chunks without data.  The positions run out
only if there are as many chunks without data as it takes to use them up.  So with at most one
chunk without data among the frames, there are no more chunks than one and the bytes declared, and
the positions never run out. -/
theorem growth_of_pushAll (frames : List Frame) :
    (∀ assembly, (idle.pushAll frames).2 = .accumulating assembly →
      assembly.nextPosition = assembly.chunks.length ∧
        assembly.chunks.length ≤ assembly.total.toNat + assembly.empties ∧
        assembly.empties ≤ frames.countP Frame.isEmptyChunk) ∧
    (∀ frame, ((idle.pushAll frames).2.push frame).1 = .error (.protocol .positionsExhausted) →
      ∃ assembly, (idle.pushAll frames).2 = .accumulating assembly ∧
        UInt32.size ≤ assembly.total.toNat + assembly.empties + 1) ∧
    (frames.countP Frame.isEmptyChunk ≤ 1 →
      (∀ assembly, (idle.pushAll frames).2 = .accumulating assembly →
        assembly.chunks.length ≤ assembly.total.toNat + 1) ∧
      ∀ frame,
        ((idle.pushAll frames).2.push frame).1 ≠ .error (.protocol .positionsExhausted)) := by
  have hgrown := grown_idle.pushAll frames
  rw [Nat.zero_add] at hgrown
  have hflight : ∀ assembly, (idle.pushAll frames).2 = .accumulating assembly →
      assembly.Bounded ∧ assembly.empties ≤ frames.countP Frame.isEmptyChunk := by
    intro assembly hstate
    rw [hstate] at hgrown
    exact hgrown
  refine ⟨?_, fun frame hpush => hgrown.exists_of_exhausted hpush, fun hfew => ⟨?_, ?_⟩⟩
  · intro assembly hstate
    obtain ⟨hbounded, hempties⟩ := hflight assembly hstate
    exact ⟨hbounded.nextPosition_eq, hbounded.length_le, hempties⟩
  · intro assembly hstate
    obtain ⟨hbounded, hempties⟩ := hflight assembly hstate
    have hlength := hbounded.length_le
    omega
  · intro frame hpush
    obtain ⟨assembly, hstate, hsize⟩ := hgrown.exists_of_exhausted hpush
    obtain ⟨hbounded, hempties⟩ := hflight assembly hstate
    have htotal := hbounded.total_le
    -- 2^32 positions are more than the longest message has bytes
    unfold UInt32.size at hsize
    unfold maxMessageLength at htotal
    omega

/-- One chunk without data, and one with the only byte of the message. -/
def lone : List Frame :=
  [.chunk (.hollow 3 1 0), .chunk ⟨3, 1, false, 1, .ofBytes [97]⟩]

/-- They are two chunks of a message of one byte. -/
theorem growth_of_pushAll_lone :
    lone.countP Frame.isEmptyChunk ≤ 1 ∧
      ∃ assembly, (idle.pushAll lone).2 = .accumulating assembly ∧
        assembly.chunks.length = 2 ∧ assembly.chunks.length ≤ assembly.total.toNat + 1 :=
  ⟨by decide, _, rfl, rfl, ((growth_of_pushAll lone).2.2 (by decide)).1 _ rfl⟩

/-- Two chunks without data are more than a message of no bytes allows for, and 2^32 - 1 of them use
up the positions. -/
theorem outgrown_of_hollowRun :
    (∃ assembly, (idle.pushAll (hollowRun 3 0 0 2)).2 = .accumulating assembly ∧
      assembly.total.toNat + 1 < assembly.chunks.length) ∧
    ((idle.pushAll (hollowRun 3 0 0 4294967295)).2.push
        (.chunk (.hollow 3 0 4294967295))).1 =
      .error (.protocol .positionsExhausted) := by
  constructor
  · exact ⟨.hollow 3 0 2, rfl, by decide⟩
  · exact push_of_hollowRun 3 (by decide) (by decide : 4294967294 + 2 = UInt32.size)

end Assembler

end Overlay.Wire
