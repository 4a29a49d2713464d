import Overlay.Proofs.Wire.Reassembly

/-!
# Chunks that are refused

Most of the refusals come before the assembler is touched.  Two come after.  A first chunk with
more data than it declares opens a message before it is refused (`Assembler.Overfull`), and a
chunk that is marked as the last before all the data is there is kept when it is refused
(`Assembler.Short`).

A run that meets neither goes on as if the refused chunks had never come.  In any run, the messages
are those of the accepted frames and of the short chunks without their marks: the data of a short
chunk is part of the message that a later chunk completes.
-/

namespace Overlay.Wire

/-- A chunk that is not marked as the last. -/
def Chunk.unmarked (chunk : Chunk) : Chunk :=
  { chunk with isLast := false }

namespace Assembly

/-- The one rule that the first chunk of a message can break. -/
theorem refuse?_start {chunk : Chunk} (hposition : chunk.position = 0) :
    (start chunk.tag chunk.total).refuse? chunk =
      if chunk.total.toNat < chunk.data.size then some (.exceedsTotal chunk.total.toNat)
      else none := by
  unfold refuse?
  simp [start, hposition, UInt32.size]

/-- A refused chunk is not kept, unless it kept every rule and came too early as the last. -/
theorem push_error {assembly : Assembly} {chunk : Chunk} {cause : NetError} {after : Assembler}
    (hpush : assembly.push chunk = (.error cause, after)) :
    (∃ fault, assembly.refuse? chunk = some fault ∧ cause = .protocol fault ∧
        after = .accumulating assembly) ∨
      assembly.refuse? chunk = none ∧ chunk.isLast = true ∧
        assembly.received + chunk.data.size < assembly.total.toNat ∧
        cause = .protocol
          (.lengthMismatch (assembly.received + chunk.data.size) assembly.total.toNat) ∧
        after = .accumulating (assembly.add chunk) := by
  unfold push at hpush
  cases hrefuse : assembly.refuse? chunk with
  | some fault =>
      simp only [hrefuse, Prod.mk.injEq, Except.error.injEq] at hpush
      exact Or.inl ⟨fault, rfl, hpush.1.symm, hpush.2.symm⟩
  | none =>
      obtain ⟨-, -, -, hroom, -⟩ := (refuse?_eq_none_iff _ _).1 hrefuse
      cases hlast : chunk.isLast with
      | false => simp [hrefuse, hlast] at hpush
      | true =>
          by_cases hall : assembly.received + chunk.data.size = assembly.total.toNat
          · simp [hrefuse, hlast, add, hall] at hpush
          · simp only [hrefuse, hlast, add, hall, Bool.not_true, Bool.false_eq_true, if_false,
              ne_eq, not_false_eq_true, if_true, Prod.mk.injEq, Except.error.injEq] at hpush
            apply Or.inr
            exact ⟨rfl, rfl, by omega, hpush.1.symm, hpush.2.symm⟩

/-- Without its mark, a chunk that keeps every rule is taken. -/
theorem push_unmarked {assembly : Assembly} {chunk : Chunk}
    (haccepts : assembly.refuse? chunk = none) :
    assembly.push chunk.unmarked = (.ok none, .accumulating (assembly.add chunk)) := by
  have hunmarked : assembly.refuse? chunk.unmarked = none := haccepts
  unfold push
  rw [hunmarked]
  rfl

end Assembly

namespace Assembler

/-- The message that a chunk is put to: the one in flight, or a new one of its own. -/
def target (assembler : Assembler) (chunk : Chunk) : Assembly :=
  match assembler with
  | .idle => .start chunk.tag chunk.total
  | .accumulating assembly => assembly

/-- A first chunk with more data than the message that it declares. -/
structure Overfull (assembler : Assembler) (chunk : Chunk) : Prop where
  fresh : assembler = .idle
  total_le : chunk.total.toNat ≤ maxMessageLength
  position_eq : chunk.position = 0
  exceeds : chunk.total.toNat < chunk.data.size

/-- A chunk that keeps every rule and is marked as the last, though data is missing. -/
structure Short (assembler : Assembler) (chunk : Chunk) : Prop where
  total_le : chunk.total.toNat ≤ maxMessageLength
  accepts : (assembler.target chunk).refuse? chunk = none
  isLast : chunk.isLast = true
  missing : (assembler.target chunk).received + chunk.data.size < chunk.total.toNat

instance (assembler : Assembler) (chunk : Chunk) : Decidable (assembler.Short chunk) :=
  decidable_of_iff
    (chunk.total.toNat ≤ maxMessageLength ∧ (assembler.target chunk).refuse? chunk = none ∧
      chunk.isLast = true ∧
      (assembler.target chunk).received + chunk.data.size < chunk.total.toNat)
    ⟨fun ⟨htotal, haccepts, hlast, hmissing⟩ => ⟨htotal, haccepts, hlast, hmissing⟩,
      fun hshort => ⟨hshort.total_le, hshort.accepts, hshort.isLast, hshort.missing⟩⟩

/-- A first chunk that keeps every rule stands at the first position. -/
theorem position_eq_zero_of_accepts {chunk : Chunk}
    (haccepts : (idle.target chunk).refuse? chunk = none) : chunk.position = 0 := by
  obtain ⟨-, hposition, -⟩ := (Assembly.refuse?_eq_none_iff _ _).1 haccepts
  apply UInt32.toNat.inj
  exact hposition

/-- A chunk that could be next is put to its message. -/
theorem pushChunk_eq_push {assembler : Assembler} {chunk : Chunk}
    (htotal : chunk.total.toNat ≤ maxMessageLength)
    (hposition : assembler = .idle → chunk.position = 0) :
    assembler.pushChunk chunk = (assembler.target chunk).push chunk := by
  unfold pushChunk
  rw [if_neg (Nat.not_lt.2 htotal)]
  cases assembler with
  | accumulating assembly => rfl
  | idle => simp [hposition rfl, target]

/-- A chunk is put to its message, or refused before: it declares too much, or begins a message at
a later position. -/
theorem pushChunk_cases (assembler : Assembler) (chunk : Chunk) :
    chunk.total.toNat ≤ maxMessageLength ∧ (assembler = .idle → chunk.position = 0) ∧
        assembler.pushChunk chunk = (assembler.target chunk).push chunk ∨
      maxMessageLength < chunk.total.toNat ∧
        assembler.pushChunk chunk =
          (.error (.protocol (.chunkedTooLong chunk.total.toNat)), assembler) ∨
      assembler = .idle ∧ chunk.position ≠ 0 ∧
        assembler.pushChunk chunk =
          (.error (.protocol (.sequenceStart chunk.position.toNat)), assembler) := by
  by_cases hlong : maxMessageLength < chunk.total.toNat
  · refine Or.inr (Or.inl ⟨hlong, ?_⟩)
    simp [pushChunk, hlong]
  by_cases hlate : assembler = .idle ∧ chunk.position ≠ 0
  · obtain ⟨rfl, hlate⟩ := hlate
    refine Or.inr (Or.inr ⟨rfl, hlate, ?_⟩)
    simp [pushChunk, hlong, hlate]
  have htotal : chunk.total.toNat ≤ maxMessageLength := Nat.not_lt.1 hlong
  have hposition : assembler = .idle → chunk.position = 0 := by
    intro hidle
    by_contra hne
    exact hlate ⟨hidle, hne⟩
  exact Or.inl ⟨htotal, hposition, pushChunk_eq_push htotal hposition⟩

/-- A chunk that is accepted keeps every rule of its message. -/
theorem pushChunk_ok {assembler after : Assembler} {chunk : Chunk} {outcome : Option Message}
    (hpush : assembler.pushChunk chunk = (.ok outcome, after)) :
    chunk.total.toNat ≤ maxMessageLength ∧ (assembler.target chunk).refuse? chunk = none ∧
      (assembler.target chunk).push chunk = (.ok outcome, after) := by
  rcases pushChunk_cases assembler chunk with ⟨htotal, -, htarget⟩ | ⟨-, hearly⟩ | ⟨-, -, hearly⟩
  · rw [htarget] at hpush
    exact ⟨htotal, (Assembly.push_ok hpush).1, hpush⟩
  · simp [hearly] at hpush
  · simp [hearly] at hpush

/-- A first chunk that breaks a rule of its own message has too much data. -/
theorem overfull_of_refuse {chunk : Chunk} {fault : ProtocolFault}
    (htotal : chunk.total.toNat ≤ maxMessageLength) (hposition : chunk.position = 0)
    (hrefuse : (idle.target chunk).refuse? chunk = some fault) :
    idle.Overfull chunk ∧ fault = .exceedsTotal chunk.total.toNat := by
  have hstart : (idle.target chunk).refuse? chunk = _ := Assembly.refuse?_start hposition
  rw [hrefuse] at hstart
  have hexceeds : chunk.total.toNat < chunk.data.size := by
    by_contra hfits
    rw [if_neg hfits] at hstart
    contradiction
  rw [if_pos hexceeds, Option.some.injEq] at hstart
  exact ⟨⟨rfl, htotal, hposition, hexceeds⟩, hstart⟩

/-- **The traces that refusals leave.**  A refused chunk leaves the assembler as it was, unless it is
overfull, and opens a message, or short, and is kept. -/
theorem pushChunk_error {assembler after : Assembler} {chunk : Chunk} {cause : NetError}
    (hpush : assembler.pushChunk chunk = (.error cause, after)) :
    after = assembler ∧ ¬ assembler.Overfull chunk ∧ ¬ assembler.Short chunk ∨
      assembler.Overfull chunk ∧ cause = .protocol (.exceedsTotal chunk.total.toNat) ∧
        after = .accumulating (.start chunk.tag chunk.total) ∨
      assembler.Short chunk ∧
        cause = .protocol (.lengthMismatch
          ((assembler.target chunk).received + chunk.data.size) chunk.total.toNat) ∧
        after = .accumulating ((assembler.target chunk).add chunk) := by
  rcases pushChunk_cases assembler chunk with ⟨htotal, hposition, htarget⟩ | ⟨hlong, hearly⟩ |
    ⟨hidle, hlate, hearly⟩
  · -- the chunk is put to its message, and there breaks a rule or comes too early as the last
    rw [htarget] at hpush
    rcases Assembly.push_error hpush with ⟨fault, hrefuse, hcause, hafter⟩ |
      ⟨haccepts, hlast, hmissing, hcause, hafter⟩
    · have hshort : ¬ assembler.Short chunk := by
        intro hshort
        rw [hshort.accepts] at hrefuse
        contradiction
      cases assembler with
      | accumulating assembly =>
          exact Or.inl ⟨hafter, fun hover => Assembler.noConfusion hover.fresh, hshort⟩
      | idle =>
          obtain ⟨hover, rfl⟩ := overfull_of_refuse htotal (hposition rfl) hrefuse
          exact Or.inr (Or.inl ⟨hover, hcause, hafter⟩)
    · obtain ⟨-, -, hsame, -⟩ := (Assembly.refuse?_eq_none_iff _ _).1 haccepts
      rw [← hsame] at hmissing hcause
      exact Or.inr (Or.inr ⟨⟨htotal, haccepts, hlast, hmissing⟩, hcause, hafter⟩)
  · simp only [hearly, Prod.mk.injEq] at hpush
    exact Or.inl ⟨hpush.2.symm, fun hover => Nat.not_le.2 hlong hover.total_le,
      fun hshort => Nat.not_le.2 hlong hshort.total_le⟩
  · subst hidle
    simp only [hearly, Prod.mk.injEq] at hpush
    exact Or.inl ⟨hpush.2.symm, fun hover => hlate hover.position_eq,
      fun hshort => hlate (position_eq_zero_of_accepts hshort.accepts)⟩

/-- A short chunk is refused, and kept. -/
theorem Short.pushChunk_eq {assembler : Assembler} {chunk : Chunk}
    (hshort : assembler.Short chunk) :
    assembler.pushChunk chunk =
      (.error (.protocol (.lengthMismatch ((assembler.target chunk).received + chunk.data.size)
          chunk.total.toNat)),
        .accumulating ((assembler.target chunk).add chunk)) := by
  have hposition : assembler = .idle → chunk.position = 0 := by
    rintro rfl
    exact position_eq_zero_of_accepts hshort.accepts
  obtain ⟨-, -, hsame, -⟩ := (Assembly.refuse?_eq_none_iff _ _).1 hshort.accepts
  have hmissing := Nat.ne_of_lt hshort.missing
  rw [pushChunk_eq_push hshort.total_le hposition, Assembly.push, hshort.accepts]
  rw [hsame] at hmissing ⊢
  simp [hshort.isLast, Assembly.add, hmissing]

/-- Nothing but a chunk is refused. -/
theorem exists_chunk_of_push_error {assembler after : Assembler} {frame : Frame} {cause : NetError}
    (hpush : assembler.push frame = (.error cause, after)) :
    ∃ chunk, frame = .chunk chunk ∧ assembler.pushChunk chunk = (.error cause, after) := by
  cases frame with
  | whole message => simp [push] at hpush
  | chunk chunk => exact ⟨chunk, rfl, hpush⟩

/-! ### Runs without traces -/

/-- No chunk of a run leaves a trace when it is refused. -/
def Traceless : Assembler → List Frame → Prop
  | _, [] => True
  | assembler, frame :: frames =>
      (∀ chunk, frame = .chunk chunk → ¬ assembler.Overfull chunk ∧ ¬ assembler.Short chunk) ∧
        Traceless (assembler.push frame).2 frames

/-- The frames of a run that are accepted. -/
def accepted : Assembler → List Frame → List Frame
  | _, [] => []
  | assembler, frame :: frames =>
      if (assembler.push frame).1.isOk then frame :: accepted (assembler.push frame).2 frames
      else accepted (assembler.push frame).2 frames

/-- In a run without traces, the refused chunks might as well not have come. -/
theorem pushAll_accepted {assembler : Assembler} {frames : List Frame}
    (hfree : assembler.Traceless frames) :
    assembler.pushAll (assembler.accepted frames) =
      ((assembler.pushAll frames).1.filter (·.isOk), (assembler.pushAll frames).2) := by
  induction frames generalizing assembler with
  | nil => rfl
  | cons frame frames ih =>
      obtain ⟨hframe, hfree⟩ := hfree
      have hrest := ih hfree
      cases hpush : assembler.push frame with
      | mk result next =>
          rw [hpush] at hrest
          cases result with
          | ok outcome =>
              simp only [accepted, pushAll, hpush, Except.isOk, Except.toBool, if_true, hrest,
                List.filter_cons]
          | error cause =>
              obtain ⟨chunk, rfl, hchunk⟩ := exists_chunk_of_push_error hpush
              obtain ⟨hover, hshort⟩ := hframe chunk rfl
              have hsame : next = assembler := by
                rcases pushChunk_error hchunk with ⟨hsame, -⟩ | ⟨htrace, -⟩ | ⟨htrace, -⟩
                · exact hsame
                · contradiction
                · contradiction
              subst hsame
              simp only [accepted, pushAll, hpush, Except.isOk, Except.toBool, if_false, hrest,
                List.filter_cons, Bool.false_eq_true]

/-! ### All runs -/

/-- What counts of a frame: it is accepted, or it is a short chunk, which counts without its
mark. -/
def keep? (assembler : Assembler) : Frame → Option Frame
  | .whole message => some (.whole message)
  | .chunk chunk =>
      if assembler.Short chunk then some (.chunk chunk.unmarked)
      else if (assembler.pushChunk chunk).1.isOk then some (.chunk chunk)
      else none

/-- What counts of the frames of a run. -/
def kept : Assembler → List Frame → List Frame
  | _, [] => []
  | assembler, frame :: frames =>
      (assembler.keep? frame).toList ++ kept (assembler.push frame).2 frames

/-- The second assembler is the first one but for a message that an overfull chunk has opened. -/
inductive Mirrors : Assembler → Assembler → Prop
  | same (assembler : Assembler) : Mirrors assembler assembler
  | opened (tag : UInt8) (total : UInt32) : Mirrors (.accumulating (.start tag total)) .idle

/-- A chunk that keeps every rule is put to the same message. -/
theorem Mirrors.pushChunk_eq {assembler other : Assembler} (hmirrors : assembler.Mirrors other)
    {chunk : Chunk} (htotal : chunk.total.toNat ≤ maxMessageLength)
    (haccepts : (assembler.target chunk).refuse? chunk = none) :
    other.pushChunk chunk = (assembler.target chunk).push chunk := by
  obtain ⟨htag, hposition, hsame, -⟩ := (Assembly.refuse?_eq_none_iff _ _).1 haccepts
  cases hmirrors with
  | same =>
      apply pushChunk_eq_push htotal
      rintro rfl
      exact position_eq_zero_of_accepts haccepts
  | opened tag total =>
      have htarget : idle.target chunk = (accumulating (.start tag total)).target chunk := by
        unfold target
        rw [htag, hsame]
        rfl
      rw [← htarget] at haccepts ⊢
      exact pushChunk_eq_push htotal fun _ => position_eq_zero_of_accepts haccepts

theorem Mirrors.pushChunk_ok {assembler other next : Assembler}
    (hmirrors : assembler.Mirrors other) {chunk : Chunk} {outcome : Option Message}
    (hpush : assembler.pushChunk chunk = (.ok outcome, next)) :
    other.pushChunk chunk = (.ok outcome, next) := by
  obtain ⟨htotal, haccepts, htarget⟩ := Assembler.pushChunk_ok hpush
  rw [hmirrors.pushChunk_eq htotal haccepts, htarget]

theorem Mirrors.pushChunk_unmarked {assembler other : Assembler}
    (hmirrors : assembler.Mirrors other) {chunk : Chunk} (hshort : assembler.Short chunk) :
    other.pushChunk chunk.unmarked =
      (.ok none, .accumulating ((assembler.target chunk).add chunk)) := by
  have htotal : chunk.unmarked.total.toNat ≤ maxMessageLength := hshort.total_le
  have haccepts : (assembler.target chunk.unmarked).refuse? chunk.unmarked = none :=
    hshort.accepts
  rw [hmirrors.pushChunk_eq htotal haccepts]
  exact Assembly.push_unmarked hshort.accepts

/-- What counts of a frame has the effect that the frame has. -/
theorem Mirrors.push_counted {assembler other : Assembler} (hmirrors : assembler.Mirrors other)
    {frame counted : Frame} (hkeep : assembler.keep? frame = some counted) :
    ∃ outcome next, other.push counted = (.ok outcome, next) ∧
      (assembler.push frame).1.toOption.join = outcome ∧
      (assembler.push frame).2.Mirrors next := by
  cases frame with
  | whole message =>
      obtain rfl : Frame.whole message = counted := Option.some.inj hkeep
      exact ⟨some message, other, rfl, rfl, hmirrors⟩
  | chunk chunk =>
      show ∃ outcome next, other.push counted = (.ok outcome, next) ∧
        (assembler.pushChunk chunk).1.toOption.join = outcome ∧
        Mirrors (assembler.pushChunk chunk).2 next
      simp only [keep?] at hkeep
      split_ifs at hkeep with hshort hok
      · obtain rfl := Option.some.inj hkeep
        refine ⟨none, _, hmirrors.pushChunk_unmarked hshort, ?_⟩
        rw [hshort.pushChunk_eq]
        exact ⟨rfl, Mirrors.same _⟩
      · obtain rfl := Option.some.inj hkeep
        cases hpush : assembler.pushChunk chunk with
        | mk result next =>
            rw [hpush] at hok
            cases result with
            | error cause => simp [Except.isOk, Except.toBool] at hok
            | ok outcome =>
                exact ⟨outcome, next, hmirrors.pushChunk_ok hpush, rfl, Mirrors.same next⟩

/-- A frame that does not count leads to nothing, and opens a message at the most. -/
theorem Mirrors.push_uncounted {assembler other : Assembler} (hmirrors : assembler.Mirrors other)
    {frame : Frame} (hkeep : assembler.keep? frame = none) :
    (assembler.push frame).1.toOption.join = none ∧
      (assembler.push frame).2.Mirrors other := by
  cases frame with
  | whole message => simp [keep?] at hkeep
  | chunk chunk =>
      simp only [keep?] at hkeep
      split_ifs at hkeep with hshort hok
      show (assembler.pushChunk chunk).1.toOption.join = none ∧
        Mirrors (assembler.pushChunk chunk).2 other
      cases hpush : assembler.pushChunk chunk with
      | mk result after =>
          rw [hpush] at hok
          cases result with
          | ok outcome => simp [Except.isOk, Except.toBool] at hok
          | error cause =>
              refine ⟨rfl, ?_⟩
              rcases pushChunk_error hpush with ⟨rfl, -⟩ | ⟨hover, -, rfl⟩ | ⟨htrace, -⟩
              · exact hmirrors
              · -- only an idle assembler can be made to open a message, and so the other is idle too
                cases hmirrors with
                | same =>
                    rw [hover.fresh]
                    exact Mirrors.opened chunk.tag chunk.total
                | opened => exact Assembler.noConfusion hover.fresh
              · contradiction

/-- The messages among the results of a run. -/
def messages (results : List (Except NetError (Option Message))) : List Message :=
  results.filterMap fun result => result.toOption.join

theorem messages_pushAll_cons (assembler : Assembler) (frame : Frame) (frames : List Frame) :
    messages (assembler.pushAll (frame :: frames)).1 =
      (assembler.push frame).1.toOption.join.toList ++
        messages ((assembler.push frame).2.pushAll frames).1 := by
  simp only [pushAll, messages, List.filterMap_cons]
  cases (assembler.push frame).1.toOption.join with
  | none => rfl
  | some message => rfl

/-- **What counts of a run.**  The frames that count are all accepted, and lead to the same messages
and to the same end, but for a message that an overfull chunk has opened. -/
theorem Mirrors.pushAll_kept {assembler other : Assembler} (hmirrors : assembler.Mirrors other)
    (frames : List Frame) :
    (∀ result ∈ (other.pushAll (assembler.kept frames)).1, result.isOk) ∧
      messages (other.pushAll (assembler.kept frames)).1 =
        messages (assembler.pushAll frames).1 ∧
      (assembler.pushAll frames).2.Mirrors (other.pushAll (assembler.kept frames)).2 := by
  induction frames generalizing assembler other with
  | nil => exact ⟨nofun, rfl, hmirrors⟩
  | cons frame frames ih =>
      rw [messages_pushAll_cons]
      cases hkeep : assembler.keep? frame with
      | none =>
          obtain ⟨hnothing, hnext⟩ := hmirrors.push_uncounted hkeep
          obtain ⟨hok, hsame, hend⟩ := ih hnext
          simp only [kept, hkeep, hnothing, Option.toList_none, List.nil_append, pushAll]
          exact ⟨hok, hsame, hend⟩
      | some counted =>
          obtain ⟨outcome, next, htaken, hsame, hnext⟩ := hmirrors.push_counted hkeep
          obtain ⟨hok, hrest, hend⟩ := ih hnext
          have hkept : assembler.kept (frame :: frames) =
              counted :: (assembler.push frame).2.kept frames := by
            simp only [kept, hkeep, Option.toList_some, List.singleton_append]
          rw [hkept, messages_pushAll_cons, hsame, htaken]
          simp only [pushAll, htaken, List.mem_cons, forall_eq_or_imp]
          refine ⟨⟨rfl, hok⟩, ?_, hend⟩
          rw [hrest]
          rfl

/-- **What becomes of refused chunks.**  Only a chunk is ever refused.  It leaves the assembler as
it was, unless it is overfull, and then opens the message that it declares, or short, and then is
added to its message.  A run that meets neither kind has the outcomes of its accepted frames and
ends where they end.  In any run, the messages are those of the accepted frames and of the short
chunks without their marks. -/
theorem refusals_traceless_or_kept (assembler : Assembler) :
    (∀ frame cause after, assembler.push frame = (.error cause, after) →
      ∃ chunk, frame = .chunk chunk ∧
        (after = assembler ∧ ¬ assembler.Overfull chunk ∧ ¬ assembler.Short chunk ∨
          assembler.Overfull chunk ∧ cause = .protocol (.exceedsTotal chunk.total.toNat) ∧
            after = .accumulating (.start chunk.tag chunk.total) ∨
          assembler.Short chunk ∧
            cause = .protocol (.lengthMismatch
              ((assembler.target chunk).received + chunk.data.size) chunk.total.toNat) ∧
            after = .accumulating ((assembler.target chunk).add chunk))) ∧
    (∀ frames, assembler.Traceless frames →
      assembler.pushAll (assembler.accepted frames) =
        ((assembler.pushAll frames).1.filter (·.isOk), (assembler.pushAll frames).2)) ∧
    ∀ frames,
      (∀ result ∈ (assembler.pushAll (assembler.kept frames)).1, result.isOk) ∧
        messages (assembler.pushAll (assembler.kept frames)).1 =
          messages (assembler.pushAll frames).1 ∧
        (assembler.pushAll frames).2.Mirrors (assembler.pushAll (assembler.kept frames)).2 := by
  refine ⟨?_, ?_, ?_⟩
  · intro frame cause after hpush
    obtain ⟨chunk, hframe, hchunk⟩ := exists_chunk_of_push_error hpush
    exact ⟨chunk, hframe, pushChunk_error hchunk⟩
  · intro frames hfree
    exact pushAll_accepted hfree
  · intro frames
    exact (Mirrors.same assembler).pushAll_kept frames

/-- A chunk of another type between two chunks of a message. -/
def strayed : List Frame :=
  [.chunk ⟨3, 0, false, 4, .ofBytes [97, 98]⟩, .chunk ⟨4, 1, true, 4, .ofBytes [99, 100]⟩,
    .chunk ⟨3, 1, true, 4, .ofBytes [101, 102]⟩]

/-- A chunk of another type is refused without a trace. -/
theorem refusals_traceless_or_kept_strayed :
    idle.Traceless strayed ∧
      idle.pushAll (idle.accepted strayed) =
        ((idle.pushAll strayed).1.filter (·.isOk), (idle.pushAll strayed).2) := by
  have hfree : idle.Traceless strayed := by
    refine ⟨?_, ?_, ?_, trivial⟩
    · rintro chunk ⟨⟩
      exact ⟨fun hover => absurd hover.exceeds (by decide),
        fun hshort => absurd hshort.isLast (by decide)⟩
    · rintro chunk ⟨⟩
      exact ⟨fun hover => Assembler.noConfusion hover.fresh,
        fun hshort => absurd hshort.accepts (by decide)⟩
    · rintro chunk ⟨⟩
      exact ⟨fun hover => Assembler.noConfusion hover.fresh,
        fun hshort => absurd hshort.missing (by decide)⟩
  exact ⟨hfree, (refusals_traceless_or_kept idle).2.1 strayed hfree⟩

/-- A first chunk with two bytes of a message of one; and a message of six bytes whose second chunk
claims to be the last. -/
theorem not_traceless_overfull_short :
    idle.push (.chunk ⟨3, 0, false, 1, .ofBytes [97, 98]⟩) =
        (.error (.protocol (.exceedsTotal 1)), .accumulating (.start 3 1)) ∧
      (idle.pushAll [.chunk ⟨3, 0, false, 6, .ofBytes [97, 98]⟩,
          .chunk ⟨3, 1, true, 6, .ofBytes [99, 100]⟩,
          .chunk ⟨3, 2, true, 6, .ofBytes [101, 102]⟩]).1 =
        [.ok none, .error (.protocol (.lengthMismatch 4 6)),
          .ok (some ⟨3, .ofBytes [97, 98, 99, 100, 101, 102]⟩)] := by
  constructor
  · rfl
  · rfl

end Assembler

end Overlay.Wire
