import Mathlib.Algebra.Ring.Nat
import Mathlib.Tactic.SplitIfs
import Overlay.Wire.Assembler

/-!
# The language of chunk streams

A chunk group is the chunks of one message: at least one and fewer than 2^32,
of one type and one declared total, in order of position, the last one marked,
with as much data as was declared.  An assembler takes a list of frames without
an error and ends idle exactly if the chunks among the frames are such groups,
one after the other.  Every group then gives its message at its last chunk, and
whole frames give theirs at their own places.

The invariant that carries both directions is `Assembler.HasOpen`: what was
taken of the group that has not ended.
-/

namespace Overlay.Wire

/-- The chunk of a frame, if the frame is one. -/
def Frame.chunk? : Frame → Option Chunk
  | .whole _ => none
  | .chunk part => some part

/-- The chunks of one message, in order. -/
structure ChunkGroup where
  tag : UInt8
  total : UInt32
  chunks : List Chunk
  nonempty : 1 ≤ chunks.length
  length_lt : chunks.length < UInt32.size
  total_le : total.toNat ≤ maxMessageLength
  tags : ∀ chunk ∈ chunks, chunk.tag = tag
  totals : ∀ chunk ∈ chunks, chunk.total = total
  positions : chunks.map (·.position.toNat) = List.range chunks.length
  ends : chunks.map (·.isLast) = List.replicate (chunks.length - 1) false ++ [true]
  sizes : (chunks.map (·.data.size)).sum = total.toNat

namespace ChunkGroup

/-- The message of a group: its type, and the data of its chunks one after the other. -/
def message (group : ChunkGroup) : Message :=
  ⟨group.tag, .ofBytes (group.chunks.flatMap (·.data.bytes))⟩

/-- What the chunks of a group lead to: nothing but the last one, which gives the message. -/
def outcomes (group : ChunkGroup) : List (Option Message) :=
  List.replicate (group.chunks.length - 1) none ++ [some group.message]

/-- What a chunk within a group says of itself. -/
theorem chunk_facts (group : ChunkGroup) {before after : List Chunk} {chunk : Chunk}
    (hchunks : group.chunks = before ++ chunk :: after) :
    chunk.tag = group.tag ∧ chunk.total = group.total ∧
      chunk.position.toNat = before.length ∧ chunk.isLast = decide (after = []) := by
  have hmem : chunk ∈ group.chunks := by
    rw [hchunks]
    exact List.mem_append_right _ List.mem_cons_self
  have hlength : group.chunks.length = before.length + (after.length + 1) := by
    rw [hchunks, List.length_append, List.length_cons]
  refine ⟨group.tags chunk hmem, group.totals chunk hmem, ?_, ?_⟩
  · have hpositions := congrArg (·[before.length]?) group.positions
    rw [hchunks] at hpositions
    simpa using hpositions
  · have hends := group.ends
    rw [hlength, hchunks, List.map_append, List.map_cons,
      show before.length + (after.length + 1) - 1 = before.length + after.length by omega,
      ← List.replicate_append_replicate, List.append_assoc] at hends
    have htail := List.append_inj_right hends (by simp)
    cases after with
    | nil => simpa using htail
    | cons next after =>
        simp only [List.length_cons, List.replicate_succ, List.cons_append, List.cons.injEq] at htail
        simpa using htail.1

/-- A group has a chunk that is marked as the last. -/
theorem exists_isLast (group : ChunkGroup) : ∃ chunk ∈ group.chunks, chunk.isLast = true := by
  have hne : group.chunks ≠ [] := List.ne_nil_of_length_pos group.nonempty
  refine ⟨group.chunks.getLast hne, List.getLast_mem hne, ?_⟩
  exact (group.chunk_facts (List.dropLast_concat_getLast hne).symm).2.2.2

/-- The data up to a chunk of a group is no more than what was declared. -/
theorem sizes_le (group : ChunkGroup) {before after : List Chunk}
    (hchunks : group.chunks = before ++ after) :
    (before.map (·.data.size)).sum ≤ group.total.toNat := by
  rw [← group.sizes, hchunks, List.map_append, List.sum_append]
  exact Nat.le_add_right _ _

/-- A chunk before the last leads to nothing. -/
theorem drop_outcomes_of_lt (group : ChunkGroup) (more : List (Option Message)) {count : Nat}
    (hcount : count + 1 < group.chunks.length) :
    (group.outcomes ++ more).drop count = none :: (group.outcomes ++ more).drop (count + 1) := by
  have hlength : count < (group.outcomes ++ more).length := by
    simp only [outcomes, List.length_append, List.length_replicate, List.length_singleton]
    omega
  rw [List.drop_eq_getElem_cons hlength]
  congr 1
  simp only [outcomes, List.append_assoc]
  rw [List.getElem_append_left (by rw [List.length_replicate]; omega), List.getElem_replicate]

/-- The last chunk leads to the message, and what follows belongs to others. -/
theorem drop_outcomes_of_eq (group : ChunkGroup) (more : List (Option Message)) {count : Nat}
    (hcount : count + 1 = group.chunks.length) :
    (group.outcomes ++ more).drop count = some group.message :: more := by
  rw [outcomes, List.append_assoc]
  exact List.drop_left' (by rw [List.length_replicate]; omega)

end ChunkGroup

namespace Assembly

/-- The message in flight is made of exactly these chunks. -/
structure Holds (assembly : Assembly) (chunks : List Chunk) : Prop where
  total_le : assembly.total.toNat ≤ maxMessageLength
  tags : ∀ chunk ∈ chunks, chunk.tag = assembly.tag
  totals : ∀ chunk ∈ chunks, chunk.total = assembly.total
  positions : chunks.map (·.position.toNat) = List.range chunks.length
  nextPosition_eq : assembly.nextPosition = chunks.length
  length_lt : chunks.length < UInt32.size
  received_eq : assembly.received = (chunks.map (·.data.size)).sum
  chunks_eq : assembly.chunks = (chunks.map (·.data)).reverse

theorem holds_start (tag : UInt8) {total : UInt32} (htotal : total.toNat ≤ maxMessageLength) :
    (start tag total).Holds [] where
  total_le := htotal
  tags := by simp
  totals := by simp
  positions := rfl
  nextPosition_eq := rfl
  length_lt := by decide
  received_eq := rfl
  chunks_eq := rfl

/-- A chunk continues a message if it says the right things of itself and fits. -/
theorem refuse?_eq_none_iff (assembly : Assembly) (chunk : Chunk) :
    assembly.refuse? chunk = none ↔
      chunk.tag = assembly.tag ∧ chunk.position.toNat = assembly.nextPosition ∧
        chunk.total = assembly.total ∧
        assembly.received + chunk.data.size ≤ assembly.total.toNat ∧
        assembly.nextPosition + 1 ≠ UInt32.size := by
  rw [refuse?]
  split_ifs with htag hposition htotal hexceeds hpositions
  · simp [htag]
  · simp [hposition]
  · simp [htotal]
  · simp [Nat.not_le.2 hexceeds]
  · simp [hpositions]
  · simp only [ne_eq, Decidable.not_not] at htag hposition htotal
    simp [htag, hposition, htotal, hpositions, Nat.not_lt.1 hexceeds]

theorem Holds.add {assembly : Assembly} {chunks : List Chunk} (hholds : assembly.Holds chunks)
    {chunk : Chunk} (haccepts : assembly.refuse? chunk = none) :
    (assembly.add chunk).Holds (chunks ++ [chunk]) := by
  obtain ⟨htag, hposition, htotal, -, hroom⟩ := (refuse?_eq_none_iff _ _).1 haccepts
  have hlength := hholds.length_lt
  rw [hholds.nextPosition_eq] at hposition hroom
  refine ⟨hholds.total_le, ?_, ?_, ?_, ?_, ?_, ?_, ?_⟩
  · intro other hother
    rcases List.mem_append.1 hother with hold | hnew
    · exact hholds.tags other hold
    · rw [List.mem_singleton.1 hnew]
      exact htag
  · intro other hother
    rcases List.mem_append.1 hother with hold | hnew
    · exact hholds.totals other hold
    · rw [List.mem_singleton.1 hnew]
      exact htotal
  · simp [hholds.positions, hposition, List.range_succ]
  · simp [Assembly.add, hholds.nextPosition_eq]
  · rw [List.length_append, List.length_singleton]
    omega
  · simp [Assembly.add, hholds.received_eq]
  · simp [Assembly.add, hholds.chunks_eq]

theorem bytes_foldl_append (parts : List Payload) (front : Payload) :
    Payload.bytes (parts.foldl (· ++ ·) front) = front.bytes ++ parts.flatMap Payload.bytes := by
  induction parts generalizing front with
  | nil => simp
  | cons part parts ih =>
      rw [List.foldl_cons, ih, Payload.bytes_append, List.flatMap_cons, List.append_assoc]

theorem Holds.payload_eq {assembly : Assembly} {chunks : List Chunk}
    (hholds : assembly.Holds chunks) :
    assembly.payload = .ofBytes (chunks.flatMap (·.data.bytes)) := by
  apply Payload.ext_bytes
  rw [payload, hholds.chunks_eq, List.reverse_reverse, bytes_foldl_append, Payload.bytes_ofBytes,
    List.flatMap_map]
  rfl

/-- A chunk that is taken leaves the message open, or completes it if it is marked as the last and
the declared data has come. -/
theorem push_ok {assembly : Assembly} {chunk : Chunk} {result : Option Message}
    {after : Assembler} (hpush : assembly.push chunk = (.ok result, after)) :
    assembly.refuse? chunk = none ∧
      (chunk.isLast = false ∧ result = none ∧ after = .accumulating (assembly.add chunk) ∨
        chunk.isLast = true ∧ (assembly.add chunk).received = assembly.total.toNat ∧
          result = some ⟨assembly.tag, (assembly.add chunk).payload⟩ ∧ after = .idle) := by
  rw [push] at hpush
  cases hrefuse : assembly.refuse? chunk with
  | some fault => simp [hrefuse] at hpush
  | none =>
      refine ⟨rfl, ?_⟩
      cases hlast : chunk.isLast with
      | false =>
          simp only [hrefuse, hlast, Bool.not_false, if_true, Prod.mk.injEq, Except.ok.injEq]
            at hpush
          exact Or.inl ⟨rfl, hpush.1.symm, hpush.2.symm⟩
      | true =>
          by_cases hreceived : (assembly.add chunk).received = assembly.total.toNat
          · have htotal : (assembly.add chunk).received = (assembly.add chunk).total.toNat :=
              hreceived
            simp only [hrefuse, hlast, Bool.not_true, Bool.false_eq_true, if_false, ne_eq, htotal,
              not_true_eq_false, Prod.mk.injEq, Except.ok.injEq] at hpush
            exact Or.inr ⟨rfl, hreceived, hpush.1.symm, hpush.2.symm⟩
          · have htotal : (assembly.add chunk).received ≠ (assembly.add chunk).total.toNat :=
              hreceived
            simp [hrefuse, hlast, htotal] at hpush

end Assembly

namespace Assembler

/-- Takes in frames one after the other, whatever becomes of each. -/
def pushAll (assembler : Assembler) :
    List Frame → List (Except NetError (Option Message)) × Assembler
  | [] => ([], assembler)
  | frame :: frames =>
      let (result, next) := assembler.push frame
      let (results, last) := next.pushAll frames
      (result :: results, last)

/-- What was taken of the group that has not ended. -/
def HasOpen : Assembler → List Chunk → Prop
  | .idle, opened => opened = []
  | .accumulating assembly, opened =>
      assembly.Holds opened ∧ opened ≠ [] ∧ ∀ chunk ∈ opened, chunk.isLast = false

theorem hasOpen_idle : Assembler.idle.HasOpen [] :=
  rfl

theorem HasOpen.isLast_eq_false {assembler : Assembler} {opened : List Chunk}
    (hopen : assembler.HasOpen opened) : ∀ chunk ∈ opened, chunk.isLast = false := by
  cases assembler with
  | idle =>
      rw [show opened = [] from hopen]
      exact fun chunk hmem => absurd hmem List.not_mem_nil
  | accumulating assembly => exact hopen.2.2

theorem HasOpen.isIdle_iff {assembler : Assembler} {opened : List Chunk}
    (hopen : assembler.HasOpen opened) : assembler.isIdle ↔ opened = [] := by
  cases assembler with
  | idle => exact ⟨fun _ => hopen, fun _ => rfl⟩
  | accumulating assembly => exact ⟨nofun, fun hnil => absurd hnil hopen.2.1⟩

/-- A chunk that is taken continues a message that holds what was taken before. -/
theorem HasOpen.of_pushChunk_ok {assembler after : Assembler} {opened : List Chunk}
    (hopen : assembler.HasOpen opened) {chunk : Chunk} {result : Option Message}
    (hpush : assembler.pushChunk chunk = (.ok result, after)) :
    ∃ assembly : Assembly, assembly.Holds opened ∧ assembly.push chunk = (.ok result, after) := by
  unfold pushChunk at hpush
  by_cases htotal : maxMessageLength < chunk.total.toNat
  · simp [htotal] at hpush
  · rw [if_neg htotal] at hpush
    cases assembler with
    | accumulating assembly => exact ⟨assembly, hopen.1, hpush⟩
    | idle =>
        by_cases hposition : chunk.position = 0
        · rw [show opened = [] from hopen]
          refine ⟨Assembly.start chunk.tag chunk.total, ?_, ?_⟩
          · exact Assembly.holds_start chunk.tag (Nat.not_lt.1 htotal)
          · simpa [hposition] using hpush
        · simp [hposition] at hpush

/-- A chunk that could be next is met by a message that holds what was taken before. -/
theorem HasOpen.pushChunk_eq {assembler : Assembler} {opened : List Chunk}
    (hopen : assembler.HasOpen opened) {chunk : Chunk}
    (htotal : chunk.total.toNat ≤ maxMessageLength)
    (hposition : chunk.position.toNat = opened.length)
    (hfirst : ∀ other ∈ opened, other.tag = chunk.tag ∧ other.total = chunk.total) :
    ∃ assembly : Assembly, assembly.Holds opened ∧ assembly.tag = chunk.tag ∧
      assembly.total = chunk.total ∧ assembler.pushChunk chunk = assembly.push chunk := by
  unfold pushChunk
  rw [if_neg (Nat.not_lt.2 htotal)]
  cases assembler with
  | accumulating assembly =>
      obtain ⟨hholds, hne, -⟩ := hopen
      obtain ⟨other, hother⟩ := List.exists_mem_of_ne_nil opened hne
      obtain ⟨htag, hsame⟩ := hfirst other hother
      exact ⟨assembly, hholds, (hholds.tags other hother).symm.trans htag,
        (hholds.totals other hother).symm.trans hsame, rfl⟩
  | idle =>
      have hnil : opened = [] := hopen
      have hzero : chunk.position = 0 := by
        apply UInt32.toNat.inj
        rw [hposition, hnil]
        rfl
      rw [hnil]
      refine ⟨Assembly.start chunk.tag chunk.total, Assembly.holds_start chunk.tag htotal,
        rfl, rfl, ?_⟩
      simp only
      rw [if_neg (not_not_intro hzero)]

/-- A chunk that is taken extends the open group or closes it. -/
theorem HasOpen.pushChunk_ok {assembler after : Assembler} {opened : List Chunk}
    (hopen : assembler.HasOpen opened) {chunk : Chunk} {result : Option Message}
    (hpush : assembler.pushChunk chunk = (.ok result, after)) :
    after.HasOpen (opened ++ [chunk]) ∨
      after = .idle ∧ ∃ group : ChunkGroup, group.chunks = opened ++ [chunk] := by
  obtain ⟨assembly, hholds, hpush⟩ := hopen.of_pushChunk_ok hpush
  obtain ⟨haccepts, hcases⟩ := Assembly.push_ok hpush
  have hadded := hholds.add haccepts
  have hinner := hopen.isLast_eq_false
  -- the marked chunk makes a group of what was open, any other stays open itself
  rcases hcases with ⟨hlast, -, rfl⟩ | ⟨hlast, hreceived, -, rfl⟩
  · refine Or.inl ⟨hadded, by simp, fun other hother => ?_⟩
    rcases List.mem_append.1 hother with hold | hnew
    · exact hinner other hold
    · rw [List.mem_singleton.1 hnew]
      exact hlast
  · refine Or.inr ⟨rfl, {
      tag := assembly.tag
      total := assembly.total
      chunks := opened ++ [chunk]
      nonempty := by simp
      length_lt := hadded.length_lt
      total_le := hadded.total_le
      tags := hadded.tags
      totals := hadded.totals
      positions := hadded.positions
      ends := ?_
      sizes := hadded.received_eq.symm.trans hreceived }, rfl⟩
    have hfalse : opened.map (·.isLast) = List.replicate opened.length false := by
      refine List.eq_replicate_iff.2 ⟨List.length_map _, fun mark hmark => ?_⟩
      obtain ⟨other, hother, rfl⟩ := List.mem_map.1 hmark
      exact hinner other hother
    simp [hfalse, hlast]

/-- The next chunk of a group is taken.  The last one closes the group and gives its message. -/
theorem HasOpen.pushChunk_group {assembler : Assembler} {opened after : List Chunk}
    (hopen : assembler.HasOpen opened) {group : ChunkGroup} {chunk : Chunk}
    (hchunks : group.chunks = opened ++ chunk :: after) :
    (after ≠ [] → ∃ next : Assembler, assembler.pushChunk chunk = (.ok none, next) ∧
        next.HasOpen (opened ++ [chunk])) ∧
      (after = [] → assembler.pushChunk chunk = (.ok (some group.message), .idle)) := by
  obtain ⟨htag, htotal, hposition, hlast⟩ := group.chunk_facts hchunks
  have hfirst : ∀ other ∈ opened, other.tag = chunk.tag ∧ other.total = chunk.total := by
    intro other hother
    have hmem : other ∈ group.chunks := by
      rw [hchunks]
      exact List.mem_append_left _ hother
    exact ⟨(group.tags other hmem).trans htag.symm, (group.totals other hmem).trans htotal.symm⟩
  have hbound : chunk.total.toNat ≤ maxMessageLength := by
    rw [htotal]
    exact group.total_le
  obtain ⟨assembly, hholds, htagEq, htotalEq, hpush⟩ := hopen.pushChunk_eq hbound hposition hfirst
  have hsplit : group.chunks = (opened ++ [chunk]) ++ after := by
    rw [hchunks, List.append_assoc, List.singleton_append]
  have hroom : assembly.received + chunk.data.size ≤ assembly.total.toNat := by
    have hsizes := group.sizes_le hsplit
    rw [List.map_append, List.sum_append] at hsizes
    rw [hholds.received_eq, htotalEq, htotal]
    simpa using hsizes
  have hcount : assembly.nextPosition + 1 ≠ UInt32.size := by
    have hlength := group.length_lt
    rw [hchunks, List.length_append, List.length_cons] at hlength
    rw [hholds.nextPosition_eq]
    omega
  -- the facts of the group answer every check, so the chunk is not refused
  have haccepts : assembly.refuse? chunk = none :=
    (Assembly.refuse?_eq_none_iff _ _).2
      ⟨htagEq.symm, hposition.trans hholds.nextPosition_eq.symm, htotalEq.symm, hroom, hcount⟩
  have hadded := hholds.add haccepts
  refine ⟨fun hafter => ?_, fun hafter => ?_⟩
  · have hmark : chunk.isLast = false := hlast.trans (decide_eq_false hafter)
    refine ⟨.accumulating (assembly.add chunk), ?_, hadded, by simp, fun other hother => ?_⟩
    · rw [hpush, Assembly.push, haccepts]
      simp [hmark]
    · rcases List.mem_append.1 hother with hold | hnew
      · exact hopen.isLast_eq_false other hold
      · rw [List.mem_singleton.1 hnew]
        exact hmark
  · have hmark : chunk.isLast = true := hlast.trans (decide_eq_true hafter)
    have hreceived : (assembly.add chunk).received = (assembly.add chunk).total.toNat := by
      have hsizes := group.sizes
      rw [hsplit, hafter, List.append_nil] at hsizes
      rw [hadded.received_eq, hsizes, ← htotal, ← htotalEq]
      rfl
    have hmessage : (⟨assembly.tag, (assembly.add chunk).payload⟩ : Message) = group.message := by
      rw [ChunkGroup.message, hadded.payload_eq, hsplit, hafter, List.append_nil, htagEq, htag]
    rw [hpush, Assembly.push, haccepts]
    simp only [hmark, Bool.not_true, Bool.false_eq_true, if_false, ne_eq, hreceived,
      not_true_eq_false]
    rw [← hmessage]
    rfl

end Assembler

/-- Puts the messages of whole frames between what the chunks lead to. -/
def interleave : List Frame → List (Option Message) → List (Option Message)
  | [], _ => []
  | .whole message :: frames, outcomes => some message :: interleave frames outcomes
  | .chunk _ :: frames, [] => none :: interleave frames []
  | .chunk _ :: frames, outcome :: outcomes => outcome :: interleave frames outcomes

namespace Assembler

/-- Frames that are all taken, with nothing left open at the end, complete what was open and then
make up groups. -/
theorem HasOpen.exists_groups {assembler : Assembler} {opened : List Chunk}
    (hopen : assembler.HasOpen opened) (frames : List Frame)
    (hok : ∀ result ∈ (assembler.pushAll frames).1, result.isOk)
    (hidle : (assembler.pushAll frames).2.isIdle) :
    ∃ groups : List ChunkGroup,
      opened ++ frames.filterMap Frame.chunk? = groups.flatMap ChunkGroup.chunks := by
  -- what is open varies: a chunk goes to its end, or closes it into the first group
  induction frames generalizing assembler opened with
  | nil => exact ⟨[], by simpa using hopen.isIdle_iff.1 hidle⟩
  | cons frame frames ih =>
      simp only [pushAll, List.mem_cons, forall_eq_or_imp] at hok hidle
      obtain ⟨hfirst, hrest⟩ := hok
      cases frame with
      | whole message => exact ih hopen hrest hidle
      | chunk part =>
          have hpush : assembler.push (.chunk part) = assembler.pushChunk part := rfl
          rw [hpush] at hfirst hrest hidle
          cases hresult : assembler.pushChunk part with
          | mk result next =>
              rw [hresult] at hfirst hrest hidle
              cases result with
              | error cause => simp [Except.isOk, Except.toBool] at hfirst
              | ok outcome =>
                  rcases hopen.pushChunk_ok hresult with hlonger | ⟨rfl, group, hgroup⟩
                  · obtain ⟨groups, hgroups⟩ := ih hlonger hrest hidle
                    refine ⟨groups, ?_⟩
                    rw [← hgroups, List.append_assoc]
                    rfl
                  · obtain ⟨groups, hgroups⟩ := ih hasOpen_idle hrest hidle
                    refine ⟨group :: groups, ?_⟩
                    rw [List.flatMap_cons, ← hgroups, hgroup, List.append_assoc]
                    rfl

/-- What is open is the beginning of a group and not all of it. -/
theorem HasOpen.lt_of_groups {assembler : Assembler} {opened rest : List Chunk}
    (hopen : assembler.HasOpen opened) {group : ChunkGroup} {groups : List ChunkGroup}
    (hgroups : opened ++ rest = (group :: groups).flatMap ChunkGroup.chunks) :
    ∃ after : List Chunk, after ≠ [] ∧ group.chunks = opened ++ after ∧
      rest = after ++ groups.flatMap ChunkGroup.chunks := by
  -- no open chunk is marked, so what is open stops before the last chunk of the group
  obtain ⟨chunk, hmem, hlast⟩ := group.exists_isLast
  have hinner : chunk ∉ opened := by
    intro hopened
    rw [hopen.isLast_eq_false chunk hopened] at hlast
    exact Bool.false_ne_true hlast
  rw [List.flatMap_cons] at hgroups
  rcases List.append_eq_append_iff.1 hgroups with ⟨after, hchunks, hrest⟩ | ⟨more, hopened, -⟩
  · refine ⟨after, fun hnil => hinner ?_, hchunks, hrest⟩
    rw [hnil, List.append_nil] at hchunks
    exact hchunks ▸ hmem
  · refine absurd ?_ hinner
    rw [hopened]
    exact List.mem_append_left _ hmem

/-- Frames that complete what is open and then make up groups are all taken, and lead to the
messages of the groups and of the whole frames. -/
theorem HasOpen.pushAll_groups {assembler : Assembler} {opened : List Chunk}
    (hopen : assembler.HasOpen opened) (frames : List Frame) (groups : List ChunkGroup)
    (hgroups : opened ++ frames.filterMap Frame.chunk? = groups.flatMap ChunkGroup.chunks) :
    (assembler.pushAll frames).1 =
        (interleave frames ((groups.flatMap ChunkGroup.outcomes).drop opened.length)).map .ok ∧
      (assembler.pushAll frames).2 = .idle := by
  -- the outcomes of what is open have been given, so they are dropped from those of the groups
  induction frames generalizing assembler opened groups with
  | nil =>
      refine ⟨rfl, ?_⟩
      cases groups with
      | nil =>
          have hnil : opened = [] := by simpa using hgroups
          cases assembler with
          | idle => rfl
          | accumulating assembly => exact absurd hnil hopen.2.1
      | cons group groups =>
          obtain ⟨after, hne, -, hrest⟩ := hopen.lt_of_groups hgroups
          simp [hne] at hrest
  | cons frame frames ih =>
      cases frame with
      | whole message =>
          obtain ⟨hresults, hlast⟩ := ih hopen groups hgroups
          refine ⟨?_, hlast⟩
          simp only [pushAll, push, hresults, interleave, List.map_cons]
      | chunk part =>
          rw [List.filterMap_cons_some (by rfl : Frame.chunk? (.chunk part) = some part)] at hgroups
          cases groups with
          | nil => simp at hgroups
          | cons group groups =>
              obtain ⟨after, hne, hchunks, hrest⟩ := hopen.lt_of_groups hgroups
              obtain ⟨first, after, rfl⟩ := List.exists_cons_of_ne_nil hne
              rw [List.cons_append, List.cons.injEq] at hrest
              obtain ⟨rfl, hrest⟩ := hrest
              obtain ⟨hinner, hclose⟩ := hopen.pushChunk_group hchunks
              have hlength : group.chunks.length = opened.length + (after.length + 1) := by
                rw [hchunks, List.length_append, List.length_cons]
              by_cases hafter : after = []
              · -- the chunk closes the group
                obtain ⟨hresults, hlast⟩ := ih hasOpen_idle groups
                  (by simpa [hafter] using hrest)
                have hcount : opened.length + 1 = group.chunks.length := by
                  rw [hlength, hafter, List.length_nil]
                refine ⟨?_, ?_⟩
                · rw [List.flatMap_cons, group.drop_outcomes_of_eq _ hcount]
                  simp only [pushAll, push, hclose hafter, hresults, interleave, List.map_cons,
                    List.length_nil, List.drop_zero]
                · simp only [pushAll, push, hclose hafter, hlast]
              · obtain ⟨next, hpush, hlonger⟩ := hinner hafter
                obtain ⟨hresults, hlast⟩ := ih hlonger (group :: groups) (by
                  rw [hrest, List.flatMap_cons, hchunks]
                  simp)
                have hcount : opened.length + 1 < group.chunks.length := by
                  have hpos := List.length_pos_iff.2 hafter
                  omega
                refine ⟨?_, ?_⟩
                · rw [List.flatMap_cons, group.drop_outcomes_of_lt _ hcount]
                  simp only [pushAll, push, hpush, hresults, interleave, List.map_cons,
                    List.length_append, List.length_singleton, List.flatMap_cons]
                · simp only [pushAll, push, hpush, hlast]

/-- **The chunk streams that are accepted, and what they mean.**  A fresh assembler takes every
frame of a list and ends idle exactly if the chunks of the list are groups, one after the other.
Each group then gives its message at its last chunk and nothing before, and each whole frame gives
its message at its own place, wherever it stands. -/
theorem pushAll_idle_iff_groups (frames : List Frame) :
    ((∀ result ∈ (Assembler.idle.pushAll frames).1, result.isOk) ∧
        (Assembler.idle.pushAll frames).2.isIdle ↔
      ∃ groups : List ChunkGroup,
        frames.filterMap Frame.chunk? = groups.flatMap ChunkGroup.chunks) ∧
    ∀ groups : List ChunkGroup,
      frames.filterMap Frame.chunk? = groups.flatMap ChunkGroup.chunks →
        (Assembler.idle.pushAll frames).1 =
          (interleave frames (groups.flatMap ChunkGroup.outcomes)).map .ok := by
  refine ⟨⟨?_, ?_⟩, ?_⟩
  · rintro ⟨hok, hidle⟩
    exact hasOpen_idle.exists_groups frames hok hidle
  · rintro ⟨groups, hgroups⟩
    obtain ⟨hresults, hlast⟩ := hasOpen_idle.pushAll_groups frames groups hgroups
    rw [hresults, hlast]
    refine ⟨fun result hresult => ?_, rfl⟩
    obtain ⟨outcome, -, rfl⟩ := List.mem_map.1 hresult
    rfl
  · intro groups hgroups
    exact (hasOpen_idle.pushAll_groups frames groups hgroups).1

end Assembler

end Overlay.Wire
