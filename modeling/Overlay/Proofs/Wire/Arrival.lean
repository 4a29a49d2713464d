import Overlay.Proofs.Wire.Reading
import Overlay.Wire.Inbox

/-!
# How bytes arrive

Two steady streams with the same unread bytes are alike, however these are cut
in pieces and whatever interruptions come between.  A reader cannot tell them
apart: it gets the same from both, and what it leaves is alike again.
-/

namespace Overlay.Wire

/-- Two streams hand out the same bytes, each in pieces of its own. -/
structure Source.Alike (one other : Source) : Prop where
  left : one.IsSteady
  right : other.IsSteady
  unread_eq : one.unread = other.unread

/-- The same is read, and the streams are alike afterwards. -/
def Source.SameRead {α : Type} (one other : α × Source) : Prop :=
  ∃ (result : α) (next next' : Source),
    one = (result, next) ∧ other = (result, next') ∧ next.Alike next'

namespace Source.Alike

variable {one other : Source}

theorem readExact (halike : one.Alike other) (count : Nat) :
    SameRead (one.readExact count) (other.readExact count) := by
  by_cases hcount : count ≤ one.unread.length
  · obtain ⟨next, hread, hnext, hsteady⟩ := readExact_of_le halike.left hcount
    rw [halike.unread_eq] at hcount hread hnext
    obtain ⟨next', hread', hnext', hsteady'⟩ := readExact_of_le halike.right hcount
    exact ⟨_, next, next', hread, hread', hsteady, hsteady', hnext.trans hnext'.symm⟩
  · have hshort : one.unread.length < count := Nat.lt_of_not_le hcount
    exact ⟨_, [], [], readExact_of_lt halike.left hshort,
      readExact_of_lt halike.right (halike.unread_eq ▸ hshort), isSteady_nil, isSteady_nil, rfl⟩

theorem readContent (halike : one.Alike other) (tag flag : UInt8) (length : Nat) :
    SameRead (Frame.readContent tag flag length one) (Frame.readContent tag flag length other) := by
  simp only [Frame.readContent]
  split
  · obtain ⟨result, next, next', hone, hother, hnext⟩ := halike.readExact length
    simp only [hone, hother]
    cases result <;> exact ⟨_, next, next', rfl, rfl, hnext⟩
  · split
    · exact ⟨_, one, other, rfl, rfl, halike⟩
    · obtain ⟨head, middle, middle', hone, hother, hmiddle⟩ := halike.readExact chunkHeaderLength
      simp only [hone, hother]
      cases head with
      | error fault => exact ⟨_, middle, middle', rfl, rfl, hmiddle⟩
      | ok head =>
          obtain ⟨data, next, next', hone, hother, hnext⟩ :=
            hmiddle.readExact (length - chunkHeaderLength)
          simp only [hone, hother]
          cases data <;> exact ⟨_, next, next', rfl, rfl, hnext⟩

theorem readFrame (halike : one.Alike other) : SameRead (Frame.read one) (Frame.read other) := by
  obtain ⟨head, next, next', hone, hother, hnext⟩ := halike.readExact headerLength
  simp only [Frame.read, hone, hother]
  cases head with
  | error fault => exact ⟨_, next, next', rfl, rfl, hnext⟩
  | ok head =>
      dsimp only
      split
      · exact ⟨_, next, next', rfl, rfl, hnext⟩
      · split
        · exact ⟨_, next, next', rfl, rfl, hnext⟩
        · exact hnext.readContent _ _ _

end Source.Alike

namespace Inbox

variable {one other : Source}

/-- Readers of streams that are alike get the same message or failure, and go on alike. -/
theorem readFrames_alike (fuel : Nat) (assembler : Assembler) (halike : one.Alike other) :
    ∃ (result : Except NetError Message) (assembler' : Assembler) (next next' : Source),
      readFrames fuel ⟨assembler, one⟩ = (result, ⟨assembler', next⟩) ∧
        readFrames fuel ⟨assembler, other⟩ = (result, ⟨assembler', next'⟩) ∧
          next.Alike next' := by
  induction fuel generalizing assembler one other with
  | zero => exact ⟨_, assembler, one, other, rfl, rfl, halike⟩
  | succ fuel ih =>
      obtain ⟨frame, next, next', hone, hother, hnext⟩ := halike.readFrame
      simp only [readFrames, hone, hother]
      cases frame with
      | error cause => exact ⟨_, assembler, next, next', rfl, rfl, hnext⟩
      | ok frame =>
          dsimp only
          cases assembler.push frame with
          | mk pushed assembler' =>
              match pushed with
              | .error cause => exact ⟨_, assembler', next, next', rfl, rfl, hnext⟩
              | .ok (some message) => exact ⟨_, assembler', next, next', rfl, rfl, hnext⟩
              | .ok none => exact ih assembler' hnext

theorem read_alike (assembler : Assembler) (halike : one.Alike other) :
    ∃ (result : Except NetError Message) (assembler' : Assembler) (next next' : Source),
      read ⟨assembler, one⟩ = (result, ⟨assembler', next⟩) ∧
        read ⟨assembler, other⟩ = (result, ⟨assembler', next'⟩) ∧ next.Alike next' := by
  simp only [read, halike.unread_eq]
  exact readFrames_alike _ assembler halike

/-- Any number of reads in a row, also after failures, give the same on streams that are alike. -/
theorem readTimes_alike (count : Nat) (assembler : Assembler) (halike : one.Alike other) :
    readTimes count ⟨assembler, one⟩ = readTimes count ⟨assembler, other⟩ := by
  induction count generalizing assembler one other with
  | zero => rfl
  | succ count ih =>
      obtain ⟨result, assembler', next, next', hone, hother, hnext⟩ := read_alike assembler halike
      simp only [readTimes, hone, hother, ih assembler' hnext]

end Inbox

end Overlay.Wire
