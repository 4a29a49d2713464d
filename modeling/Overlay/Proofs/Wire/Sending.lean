import Overlay.Proofs.Wire.Splitting
import Overlay.Wire.Outbox

/-!
# Writing a queue to its end

A message that is sent takes all of its bytes or fails with a fault of the
stream after a beginning of them, and one that cannot be split takes none.  The
steps of the writing, from any queue and on any stream, end in one way only:
that of `deliver`.  How the messages of the queue are then judged is
`Judged`.
-/

namespace Overlay.Wire

/-- Every fault of a stream ends the writing. -/
theorem IoFault.isTransient_toError (fault : IoFault) : fault.toError.isTransient = true := by
  cases fault with
  | mk kind text => cases kind <;> rfl

/-- A whole write takes everything, or fails after a beginning that is not everything. -/
theorem writeAll_taken (flushes writes : List WriteAnswer) (bytes : Bytes) :
    (writeAll flushes writes bytes).result = .ok () ∧
        (writeAll flushes writes bytes).taken = bytes ∨
      (∃ fault, (writeAll flushes writes bytes).result = .error fault) ∧
        (writeAll flushes writes bytes).taken <+: bytes ∧
        (writeAll flushes writes bytes).taken ≠ bytes := by
  -- over the answers: an interrupted write uses one up and takes nothing
  induction writes generalizing bytes with
  | nil => cases bytes <;> exact Or.inl ⟨rfl, rfl⟩
  | cons answer writes ih =>
      cases bytes with
      | nil => exact Or.inl ⟨by cases answer <;> rfl, by cases answer <;> rfl⟩
      | cons b bytes =>
          cases answer with
          | all => exact Or.inl ⟨rfl, rfl⟩
          | fault fault =>
              by_cases hkind : fault.kind = .interrupted
              · simpa [writeAll, hkind] using ih (b :: bytes)
              · refine Or.inr ⟨⟨fault, ?_⟩, ?_, ?_⟩ <;> simp [writeAll, hkind]
          | take limit =>
              by_cases hlimit : limit = 0
              · refine Or.inr ⟨⟨.nothingTaken, ?_⟩, ?_, ?_⟩ <;> simp [writeAll, hlimit]
              · have hsplit := List.take_append_drop limit (b :: bytes)
                simp only [writeAll, if_neg hlimit]
                rcases ih ((b :: bytes).drop limit) with ⟨hok, htaken⟩ | ⟨herror, hstarts, hne⟩
                · exact Or.inl ⟨hok, by rw [htaken, hsplit]⟩
                · refine Or.inr ⟨herror, ?_, fun hall => hne ?_⟩
                  · have hlonger := (List.prefix_append_right_inj ((b :: bytes).take limit)).2 hstarts
                    rwa [hsplit] at hlonger
                  · exact List.append_cancel_left (hall.trans hsplit.symm)

/-- Sent frames take all of their bytes, or fail with a fault of the stream after a beginning of
them. -/
theorem sendFrames_taken {frames : List Frame}
    (hfits : ∀ frame ∈ frames, frame.length ≤ maxFrameLength) (sink : Sink) :
    (sendFrames frames sink).result = .ok () ∧
        (sendFrames frames sink).taken = frames.flatMap Frame.bytes ∨
      ∃ cause, (sendFrames frames sink).result = .error cause ∧ cause.isTransient = true ∧
        (sendFrames frames sink).taken <+: frames.flatMap Frame.bytes := by
  induction frames generalizing sink with
  | nil =>
      rw [sendFrames]
      cases hflush : sink.flush with
      | mk result next =>
          cases result with
          | ok done => exact Or.inl ⟨rfl, rfl⟩
          | error fault =>
              exact Or.inr ⟨fault.toError, rfl, fault.isTransient_toError, List.prefix_rfl⟩
  | cons frame frames ih =>
      have hframe := Frame.encode_eq_ok_iff.2 ⟨hfits frame List.mem_cons_self, rfl⟩
      have hframes := fun other hother => hfits other (List.mem_cons_of_mem frame hother)
      rw [sendFrames, hframe, List.flatMap_cons]
      rcases writeAll_taken sink.flushes sink.writes frame.bytes with
        ⟨hok, htaken⟩ | ⟨⟨fault, herror⟩, hstarts, -⟩
      · have hwritten : (sink.write frame.bytes).taken = frame.bytes := htaken
        simp only [show (sink.write frame.bytes).result = .ok () from hok, hwritten]
        rcases ih hframes (sink.write frame.bytes).sink with
          ⟨hokRest, htakenRest⟩ | ⟨cause, herrorRest, htransient, hstartsRest⟩
        · exact Or.inl ⟨hokRest, by rw [htakenRest]⟩
        · refine Or.inr ⟨cause, herrorRest, htransient, ?_⟩
          exact (List.prefix_append_right_inj _).2 hstartsRest
      · simp only [show (sink.write frame.bytes).result = .error fault from herror]
        refine Or.inr ⟨fault.toError, rfl, fault.isTransient_toError, ?_⟩
        exact List.IsPrefix.trans hstarts (List.prefix_append _ _)

/-! ## Willing streams -/

/-- An answer to a write call that takes some bytes or asks for another call. -/
def WriteAnswer.IsWilling : WriteAnswer → Prop
  | .fault cause => cause.kind = .interrupted
  | .take limit => limit ≠ 0
  | .all => True

/-- Every write to the stream goes through. -/
structure Sink.IsWilling (sink : Sink) : Prop where
  writes : ∀ answer ∈ sink.writes, answer.IsWilling
  flushes : ∀ cause, .fault cause ∉ sink.flushes

theorem Sink.isWilling_empty : IsWilling {} :=
  ⟨nofun, nofun⟩

/-- A willing stream takes all of a whole write and stays willing. -/
theorem writeAll_willing (flushes : List WriteAnswer) {writes : List WriteAnswer}
    (hwilling : ∀ answer ∈ writes, answer.IsWilling) (bytes : Bytes) :
    (writeAll flushes writes bytes).result = .ok () ∧
      (writeAll flushes writes bytes).taken = bytes ∧
      (writeAll flushes writes bytes).sink.flushes = flushes ∧
      ∀ answer ∈ (writeAll flushes writes bytes).sink.writes, answer.IsWilling := by
  induction writes generalizing bytes with
  | nil => cases bytes <;> exact ⟨rfl, rfl, rfl, nofun⟩
  | cons answer writes ih =>
      have hanswer := hwilling answer List.mem_cons_self
      have hwrites := fun other hother => hwilling other (List.mem_cons_of_mem answer hother)
      cases bytes with
      | nil => cases answer <;> exact ⟨rfl, rfl, rfl, hwilling⟩
      | cons b bytes =>
          cases answer with
          | all => exact ⟨rfl, rfl, rfl, hwrites⟩
          | fault cause =>
              have hkind : cause.kind = .interrupted := hanswer
              simp only [writeAll, if_pos hkind]
              exact ih hwrites (b :: bytes)
          | take limit =>
              have hlimit : limit ≠ 0 := hanswer
              simp only [writeAll, if_neg hlimit]
              obtain ⟨hok, htaken, hflushes, hmore⟩ := ih hwrites ((b :: bytes).drop limit)
              exact ⟨hok, by rw [htaken, List.take_append_drop], hflushes, hmore⟩

/-- A willing stream takes all of the frames that are sent on it. -/
theorem sendFrames_willing {frames : List Frame}
    (hfits : ∀ frame ∈ frames, frame.length ≤ maxFrameLength) {sink : Sink}
    (hwilling : sink.IsWilling) :
    (sendFrames frames sink).result = .ok () ∧
      (sendFrames frames sink).taken = frames.flatMap Frame.bytes := by
  induction frames generalizing sink with
  | nil =>
      obtain ⟨writes, flushes⟩ := sink
      match flushes, hwilling.flushes with
      | [], _ => exact ⟨rfl, rfl⟩
      | .all :: _, _ => exact ⟨rfl, rfl⟩
      | .take _ :: _, _ => exact ⟨rfl, rfl⟩
      | .fault cause :: _, hflushes => exact absurd List.mem_cons_self (hflushes cause)
  | cons frame frames ih =>
      have hframe := Frame.encode_eq_ok_iff.2 ⟨hfits frame List.mem_cons_self, rfl⟩
      obtain ⟨hok, htaken, hflushes, hmore⟩ :=
        writeAll_willing sink.flushes hwilling.writes frame.bytes
      have hnext : (sink.write frame.bytes).sink.IsWilling :=
        ⟨hmore, fun cause => hflushes ▸ hwilling.flushes cause⟩
      obtain ⟨hokRest, htakenRest⟩ :=
        ih (fun other hother => hfits other (List.mem_cons_of_mem frame hother)) hnext
      have htakenFirst : (sink.write frame.bytes).taken = frame.bytes := htaken
      rw [sendFrames, hframe, List.flatMap_cons]
      simp only [show (sink.write frame.bytes).result = .ok () from hok, htakenFirst, htakenRest,
        hokRest, and_self]

/-! ## Messages -/

/-- What sending a message comes to: it cannot be split and nothing is written, or all of its bytes
are, or the stream fails after a beginning of them. -/
theorem sendMessage_cases (message : Message) (size : Nat) (sink : Sink) :
    (∃ cause, message.split size = .error cause ∧
        sendMessage message size sink = ⟨.error cause, [], 0, sink⟩) ∨
      (message.split size).isOk ∧
        ((sendMessage message size sink).result = .ok () ∧
            (sendMessage message size sink).taken = message.wireBytes size ∨
          ∃ cause, (sendMessage message size sink).result = .error cause ∧
            cause.isTransient = true ∧
            (sendMessage message size sink).taken <+: message.wireBytes size) := by
  rw [sendMessage, Message.wireBytes]
  cases hsplit : message.split size with
  | error cause => exact Or.inl ⟨cause, rfl, rfl⟩
  | ok frames => exact Or.inr ⟨rfl, sendFrames_taken (Message.length_le_of_split hsplit) sink⟩

/-! ## Runs of the writing -/

/-- What a run of the writing shows: the verdicts in order, the failures that were announced, and
the bytes that the stream took. -/
structure Transcript where
  verdicts : List Verdict := []
  failures : List NetError := []
  taken : Bytes := []

/-- A step in front of what follows it. -/
def Outbox.Step.before (step : Outbox.Step) (rest : Transcript) : Transcript where
  verdicts := step.verdict.toList ++ rest.verdicts
  failures := step.failure.toList ++ rest.failures
  taken := step.taken ++ rest.taken

/-- The runs of the writing, until there is nothing to do. -/
inductive Outbox.Run (size : Nat) : Outbox → Sink → Transcript → Prop
  | stop {outbox : Outbox} {sink : Sink} (hstop : outbox.step? size sink = none) :
      Run size outbox sink {}
  | step {outbox : Outbox} {sink : Sink} {step : Outbox.Step} {rest : Transcript}
      (hstep : outbox.step? size sink = some step) (hrest : Run size step.outbox step.sink rest) :
      Run size outbox sink (step.before rest)

/-- What the writing of a queue to its end shows. -/
def Delivered.transcript (delivered : Delivered) : Transcript where
  verdicts := delivered.verdicts
  failures := delivered.failure.toList
  taken := delivered.taken

namespace Outbox.Run

/-- Runs from one state show the same. -/
theorem unique {size : Nat} {outbox : Outbox} {sink : Sink} {first second : Transcript}
    (hfirst : Run size outbox sink first) (hsecond : Run size outbox sink second) :
    first = second := by
  induction hfirst generalizing second with
  | stop hstop =>
      cases hsecond with
      | stop => rfl
      | step hstep => exact absurd (hstop.symm.trans hstep) nofun
  | step hstep hrest ih =>
      cases hsecond with
      | stop hstop => exact absurd (hstop.symm.trans hstep) nofun
      | step hother hrestOther =>
          obtain rfl := Option.some.inj (hstep.symm.trans hother)
          rw [ih hrestOther]

/-- Once the stream has failed, whatever waits is dropped and the failure is announced. -/
theorem draining (size : Nat) (cause : NetError) (jobs : List Job) (sink : Sink) :
    Run size { queue := jobs, phase := .draining cause } sink
      { verdicts := jobs.map (⟨·, .error NetError.dropped⟩), failures := [cause] } := by
  induction jobs with
  | nil =>
      have hannounce : step? { queue := [], phase := .closing cause } size sink =
          some { outbox := { queue := [], phase := .ended }, failure := some cause, sink } := rfl
      have hclose : step? { queue := [], phase := .draining cause } size sink =
          some { outbox := { queue := [], phase := .closing cause }, sink } := rfl
      exact Run.step hclose (Run.step hannounce (Run.stop rfl))
  | cons job jobs ih =>
      have hdrop : step? { queue := job :: jobs, phase := .draining cause } size sink =
          some {
            outbox := { queue := jobs, phase := .draining cause }
            verdict := some ⟨job, .error NetError.dropped⟩
            sink } := rfl
      exact Run.step hdrop ih

/-- The writing of a queue runs to its end as `deliver` says. -/
theorem deliver (size : Nat) (jobs : List Job) (sink : Sink) :
    Run size { queue := jobs } sink (Wire.deliver size jobs sink).transcript := by
  induction jobs generalizing sink with
  | nil => exact Run.stop rfl
  | cons job jobs ih =>
      have hfirst : ∃ step, step? { queue := job :: jobs } size sink = some step := ⟨_, rfl⟩
      obtain ⟨step, hstep⟩ := hfirst
      have hmore := ih (sendMessage job.message size sink).sink
      cases hresult : (sendMessage job.message size sink).result with
      | ok done =>
          obtain rfl : _ = step := by simpa only [step?, hresult, Option.some.injEq] using hstep
          simpa [Wire.deliver, hresult, Step.before, Delivered.transcript]
            using Run.step hstep hmore
      | error cause =>
          by_cases htransient : cause.isTransient = true
          · -- the stream failed: the rest of the queue is dropped
            obtain rfl : _ = step := by
              simpa only [step?, hresult, if_pos htransient, Option.some.injEq] using hstep
            simpa [Wire.deliver, hresult, htransient, Step.before, Delivered.transcript]
              using Run.step hstep
                (draining size cause jobs (sendMessage job.message size sink).sink)
          · -- the message failed alone
            obtain rfl : _ = step := by
              simpa only [step?, hresult, if_neg htransient, Option.some.injEq] using hstep
            simpa [Wire.deliver, hresult, htransient, Step.before, Delivered.transcript]
              using Run.step hstep hmore

end Outbox.Run

end Overlay.Wire
