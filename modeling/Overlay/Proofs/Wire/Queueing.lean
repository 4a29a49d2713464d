import Mathlib.Data.List.Nodup
import Overlay.Wire.Outbox

/-!
# Messages that come while the writer works

Callers hand over messages between any two steps of a writer, as long as it
has not given up its queue.  Each accepted message is answered exactly once,
with one exception: a writer that has failed sees its queue empty, announces
the failure and only then gives up the queue.  What comes in between is accepted
and lost.

The steps are finer than those of an `Outbox`, which writes and answers a
message at once.  `Run.served` shows that they amount to the same.
-/

namespace Overlay.Wire

/-- Where a writer stands between two of its steps. -/
inductive WriterStage
  -- it waits for a message
  | receiving
  -- it has taken a message from the queue
  | writing (job : Job)
  -- it is about to answer that message
  | completing (job : Job) (result : Except NetError Unit)
  -- the stream has failed, and it empties the queue
  | draining (cause : NetError)
  -- it is about to answer a message that is not written any more
  | dropping (job : Job) (cause : NetError)
  -- it has seen the queue empty
  | announcing (cause : NetError)
  -- it has announced the failure
  | leaving (cause : NetError)
  -- it has given up the queue
  | stopped
  -- the queue was closed, and everything is written
  | closed

namespace WriterStage

/-- How a writer goes on after it has answered a message. -/
def after : Except NetError Unit → WriterStage
  | .ok () => .receiving
  | .error cause => if cause.isTransient then .draining cause else .receiving

theorem after_cases (result : Except NetError Unit) :
    after result = .receiving ∨ ∃ cause, after result = .draining cause := by
  cases result with
  | ok => exact Or.inl rfl
  | error cause =>
      simp only [after]
      split
      · exact Or.inr ⟨cause, rfl⟩
      · exact Or.inl rfl

/-- The message that a writer has taken from the queue and not answered. -/
def inHand : WriterStage → List Job
  | .writing job => [job]
  | .completing job _ => [job]
  | .dropping job _ => [job]
  | _ => []

/-- Whether a writer has looked into the queue for the last time. -/
def hasLooked : WriterStage → Bool
  | .announcing _ => true
  | .leaving _ => true
  | .stopped => true
  | _ => false

def hasEnded : WriterStage → Bool
  | .stopped => true
  | .closed => true
  | _ => false

/-- A bound for the steps of a writer with an empty queue. -/
def toGo : WriterStage → Nat
  | .receiving => 4
  | .writing _ => 6
  | .completing _ _ => 5
  | .draining _ => 4
  | .dropping _ _ => 5
  | .announcing _ => 3
  | .leaving _ => 2
  | .stopped => 0
  | .closed => 0

/-- Where an outbox stands that has just done what the writer is about to answer. -/
def phase : WriterStage → OutboxPhase
  | .completing _ (.error cause) => if cause.isTransient then .draining cause else .running
  | .draining cause => .draining cause
  | .dropping _ cause => .draining cause
  | .announcing cause => .closing cause
  | .leaving cause => .closing cause
  | .stopped => .ended
  | _ => .running

theorem phase_after (job : Job) (result : Except NetError Unit) :
    (after result).phase = (completing job result).phase := by
  cases result with
  | ok => rfl
  | error cause =>
      by_cases htransient : cause.isTransient = true <;> simp [after, phase, htransient]

theorem phase_eq_ended_iff (stage : WriterStage) : stage.phase = .ended ↔ stage = .stopped := by
  cases stage with
  | completing job result =>
      cases result with
      | ok => exact ⟨nofun, nofun⟩
      | error cause => by_cases htransient : cause.isTransient = true <;> simp [phase, htransient]
  | stopped => exact ⟨fun _ => rfl, fun _ => rfl⟩
  | _ => exact ⟨nofun, nofun⟩

end WriterStage

/-- The states of an outbox that messages are handed to between its steps, with the verdicts so
far. -/
inductive Outbox.Served (size : Nat) (start : Sink) : Outbox → Sink → List Verdict → Prop
  | start : Served size start {} start []
  | enqueue {outbox next : Outbox} {sink : Sink} {verdicts : List Verdict} {job : Job}
      (hserved : Served size start outbox sink verdicts)
      (henqueue : outbox.enqueue job = .ok next) : Served size start next sink verdicts
  | step {outbox : Outbox} {sink : Sink} {verdicts : List Verdict} {step : Outbox.Step}
      (hserved : Served size start outbox sink verdicts)
      (hstep : outbox.step? size sink = some step) :
      Served size start step.outbox step.sink (verdicts ++ step.verdict.toList)

/-- A writer with its queue, and what has come of the calls. -/
structure Writing where
  stage : WriterStage := .receiving
  queue : List Job := []
  sink : Sink
  /-- Whether somebody can still call. -/
  isOpen : Bool := true
  /-- The messages whose calls succeeded, in order. -/
  accepted : List Job := []
  /-- The messages whose calls failed. -/
  refused : List Job := []
  /-- The messages that were accepted after the writer had seen the queue empty. -/
  late : List Job := []
  /-- The verdicts of the messages that were answered, in order. -/
  answers : List Verdict := []
  /-- The failures that were announced. -/
  failures : List NetError := []

/-- The tickets of those who wait for the verdicts on some messages. -/
def tickets (jobs : List Job) : List Nat :=
  jobs.filterMap (·.ticket)

namespace Writing

/-- How often whoever holds a ticket was told a verdict. -/
def tellings (writing : Writing) (ticket : Nat) : Nat :=
  (tickets (writing.answers.map (·.job))).count ticket

/-- Each call comes with a ticket of its own, if with any. -/
def IsFresh (writing : Writing) (job : Job) : Prop :=
  ∀ ticket ∈ job.ticket, ticket ∉ tickets writing.accepted ∧ ticket ∉ tickets writing.refused

/-- The calls, and the steps of the writer. -/
inductive Step (size : Nat) : Writing → Writing → Prop
  | accept {w : Writing} {job : Job} (hopen : w.isOpen = true) (hended : w.stage.hasEnded = false)
      (hfresh : w.IsFresh job) :
      Step size w { w with
        queue := w.queue ++ [job]
        accepted := w.accepted ++ [job]
        late := if w.stage.hasLooked then w.late ++ [job] else w.late }
  | refuse {w : Writing} {job : Job} (hopen : w.isOpen = true) (hstage : w.stage = .stopped)
      (hfresh : w.IsFresh job) :
      Step size w { w with refused := w.refused ++ [job] }
  | close {w : Writing} : Step size w { w with isOpen := false }
  | receive {w : Writing} {job : Job} {rest : List Job} (hstage : w.stage = .receiving)
      (hqueue : w.queue = job :: rest) :
      Step size w { w with stage := .writing job, queue := rest }
  | finish {w : Writing} (hstage : w.stage = .receiving) (hqueue : w.queue = [])
      (hclosed : w.isOpen = false) :
      Step size w { w with stage := .closed }
  | write {w : Writing} {job : Job} (hstage : w.stage = .writing job) :
      Step size w { w with
        stage := .completing job (sendMessage job.message size w.sink).result
        sink := (sendMessage job.message size w.sink).sink }
  | complete {w : Writing} {job : Job} {result : Except NetError Unit}
      (hstage : w.stage = .completing job result) :
      Step size w { w with stage := .after result, answers := w.answers ++ [⟨job, result⟩] }
  | take {w : Writing} {cause : NetError} {job : Job} {rest : List Job}
      (hstage : w.stage = .draining cause) (hqueue : w.queue = job :: rest) :
      Step size w { w with stage := .dropping job cause, queue := rest }
  | drop {w : Writing} {cause : NetError} {job : Job} (hstage : w.stage = .dropping job cause) :
      Step size w { w with
        stage := .draining cause
        answers := w.answers ++ [⟨job, .error NetError.dropped⟩] }
  | seeEmpty {w : Writing} {cause : NetError} (hstage : w.stage = .draining cause)
      (hqueue : w.queue = []) :
      Step size w { w with stage := .announcing cause }
  | announce {w : Writing} {cause : NetError} (hstage : w.stage = .announcing cause) :
      Step size w { w with stage := .leaving cause, failures := w.failures ++ [cause] }
  | leave {w : Writing} {cause : NetError} (hstage : w.stage = .leaving cause) :
      Step size w { w with stage := .stopped, queue := [] }

/-- The interleavings of calls and steps from a start. -/
inductive Run (size : Nat) (start : Writing) : Writing → Prop
  | refl : Run size start start
  | step {w next : Writing} (hrun : Run size start w) (hstep : Step size w next) :
      Run size start next

variable {size : Nat} {w next : Writing} {sink : Sink}

/-! ## The end of a writer -/

/-- A bound for the steps of a writer to which nothing more is handed over. -/
def toGo (w : Writing) : Nat :=
  3 * w.queue.length + w.stage.toGo

/-- A writer goes on until it has ended, unless it waits for a message. -/
theorem exists_step (size : Nat) (hended : w.stage.hasEnded = false)
    (hreceiving : w.stage = .receiving → w.queue ≠ [] ∨ w.isOpen = false) :
    ∃ next, Step size w next ∧ next.toGo < w.toGo ∧ next.isOpen = w.isOpen := by
  cases hstage : w.stage with
  | receiving =>
      cases hqueue : w.queue with
      | nil =>
          have hclosed := (hreceiving hstage).resolve_left (absurd hqueue)
          refine ⟨_, .finish hstage hqueue hclosed, ?_, rfl⟩
          simp [toGo, hstage, WriterStage.toGo]
      | cons job rest =>
          refine ⟨_, .receive hstage hqueue, ?_, rfl⟩
          simp only [toGo, hstage, hqueue, WriterStage.toGo, List.length_cons]
          omega
  | writing job => exact ⟨_, .write hstage, by simp [toGo, hstage, WriterStage.toGo], rfl⟩
  | completing job result =>
      refine ⟨_, .complete hstage, ?_, rfl⟩
      obtain hafter | ⟨cause, hafter⟩ := WriterStage.after_cases result <;>
        simp [toGo, hstage, hafter, WriterStage.toGo]
  | draining cause =>
      cases hqueue : w.queue with
      | nil =>
          exact ⟨_, .seeEmpty hstage hqueue, by simp [toGo, hstage, WriterStage.toGo], rfl⟩
      | cons job rest =>
          refine ⟨_, .take hstage hqueue, ?_, rfl⟩
          simp only [toGo, hstage, hqueue, WriterStage.toGo, List.length_cons]
          omega
  | dropping job cause => exact ⟨_, .drop hstage, by simp [toGo, hstage, WriterStage.toGo], rfl⟩
  | announcing cause =>
      exact ⟨_, .announce hstage, by simp [toGo, hstage, WriterStage.toGo], rfl⟩
  | leaving cause =>
      refine ⟨_, .leave hstage, ?_, rfl⟩
      simp only [toGo, hstage, WriterStage.toGo, List.length_nil]
      omega
  | stopped => exact absurd (hstage ▸ hended) nofun
  | closed => exact absurd (hstage ▸ hended) nofun

theorem Run.trans {start last : Writing} (hrun : Run size start w) (hmore : Run size w last) :
    Run size start last := by
  induction hmore with
  | refl => exact hrun
  | step hmore hstep ih => exact ih.step hstep

/-- A writer whose queue was closed comes to its end. -/
theorem exists_ended (size : Nat) (hclosed : w.isOpen = false) :
    ∃ last, Run size w last ∧ last.stage.hasEnded = true := by
  -- over the steps to go
  induction htoGo : w.toGo using Nat.strongRecOn generalizing w with
  | ind count ih =>
      cases hended : w.stage.hasEnded with
      | true => exact ⟨w, .refl, hended⟩
      | false =>
          obtain ⟨next, hstep, hless, hopen⟩ :=
            exists_step size hended fun _ => Or.inr hclosed
          obtain ⟨last, hrun, hlast⟩ :=
            ih next.toGo (htoGo ▸ hless) (hopen.trans hclosed) rfl
          exact ⟨last, (Run.refl.step hstep).trans hrun, hlast⟩

/-! ## The same as an outbox -/

/-- What a writer amounts to: it has judged a message as soon as it tried to write it. -/
def outbox (w : Writing) : Outbox where
  queue :=
    match w.stage with
    | .writing job => job :: w.queue
    | _ => w.queue
  phase := w.stage.phase

/-- The verdicts so far, the one that is about to be told included. -/
def judged (w : Writing) : List Verdict :=
  match w.stage with
  | .completing job result => w.answers ++ [⟨job, result⟩]
  | .dropping job _ => w.answers ++ [⟨job, .error NetError.dropped⟩]
  | _ => w.answers

/-- A call succeeds as long as the writer has not stopped. -/
theorem enqueue_outbox (hstage : w.stage ≠ .stopped) (job : Job) :
    w.outbox.enqueue job = .ok { w.outbox with queue := w.outbox.queue ++ [job] } :=
  if_neg ((WriterStage.phase_eq_ended_iff w.stage).not.2 hstage)

theorem enqueue_outbox_stopped (hstage : w.stage = .stopped) (job : Job) :
    w.outbox.enqueue job = .error NetError.writerStopped :=
  if_pos ((WriterStage.phase_eq_ended_iff w.stage).2 hstage)

theorem step?_outbox_write {job : Job} (hstage : w.stage = .writing job) :
    w.outbox.step? size w.sink = some {
      outbox := { queue := w.queue, phase := (WriterStage.completing job
        (sendMessage job.message size w.sink).result).phase }
      verdict := some ⟨job, (sendMessage job.message size w.sink).result⟩
      taken := (sendMessage job.message size w.sink).taken
      sink := (sendMessage job.message size w.sink).sink } := by
  simp only [outbox, hstage, WriterStage.phase, Outbox.step?]
  cases hresult : (sendMessage job.message size w.sink).result <;> rfl

/-- The steps of a writer and the calls that succeed amount to those of an outbox. -/
theorem Run.served (hrun : Run size { sink } w) :
    Outbox.Served size sink w.outbox w.sink w.judged := by
  induction hrun with
  | refl => exact .start
  | @step w next hrun hstep ih =>
      cases hstep with
      | @accept job hopen hended hfresh =>
          have hstage : w.stage ≠ .stopped := fun hstopped => absurd (hstopped ▸ hended) nofun
          have hserved := ih.enqueue (enqueue_outbox hstage job)
          rw [outbox] at hserved ⊢
          cases hwriting : w.stage <;> simpa [judged, hwriting] using hserved
      | refuse => exact ih
      | close => exact ih
      | receive hstage hqueue =>
          simpa [outbox, judged, hstage, hqueue, WriterStage.phase] using ih
      | finish hstage hqueue hopen =>
          simpa [outbox, judged, hstage, WriterStage.phase] using ih
      | write hstage =>
          have hserved := ih.step (step?_outbox_write hstage)
          simpa [outbox, judged, hstage] using hserved
      | @complete job result hstage =>
          have hphase := WriterStage.phase_after job result
          obtain hafter | ⟨cause, hafter⟩ := WriterStage.after_cases result
          all_goals
            rw [hafter] at hphase
            simpa [outbox, judged, hstage, hafter, hphase] using ih
      | @take cause job rest hstage hqueue =>
          have htake : w.outbox.step? size w.sink = some {
              outbox := { queue := rest, phase := .draining cause }
              verdict := some ⟨job, .error NetError.dropped⟩
              sink := w.sink } := by
            simp only [outbox, hstage, hqueue, WriterStage.phase, Outbox.step?]
          simpa [outbox, judged, hstage, WriterStage.phase] using ih.step htake
      | drop hstage =>
          simpa [outbox, judged, hstage, WriterStage.phase] using ih
      | @seeEmpty cause hstage hqueue =>
          have hlook : w.outbox.step? size w.sink = some {
              outbox := { queue := [], phase := .closing cause }, sink := w.sink } := by
            simp only [outbox, hstage, hqueue, WriterStage.phase, Outbox.step?]
          simpa [outbox, judged, hstage, hqueue, WriterStage.phase] using ih.step hlook
      | announce hstage =>
          simpa [outbox, judged, hstage, WriterStage.phase] using ih
      | @leave cause hstage =>
          have hleave : w.outbox.step? size w.sink = some {
              outbox := { queue := [], phase := .ended }, failure := some cause
              sink := w.sink } := by
            simp only [outbox, hstage, WriterStage.phase, Outbox.step?]
          simpa [outbox, judged, hstage, WriterStage.phase] using ih.step hleave

/-! ## The accounts of a writer -/

/-- The accepted messages without an answer.  A queue that was given up took its messages along. -/
def unanswered (w : Writing) : List Job :=
  match w.stage with
  | .stopped => w.late
  | stage => stage.inHand ++ w.queue

theorem unanswered_of_hasEnded (hended : w.stage.hasEnded = false) :
    w.unanswered = w.stage.inHand ++ w.queue := by
  rw [unanswered]
  split
  · next hstopped => exact absurd (hstopped ▸ hended) nofun
  · rfl

/-- Each accepted message is answered, or it is among those without an answer, which are the late
ones once the writer has looked into the queue for the last time. -/
structure Accounted (w : Writing) : Prop where
  accepted : w.accepted = w.answers.map (·.job) ++ w.unanswered
  prompt : w.stage.hasLooked = false → w.late = []
  late : w.stage.hasLooked = true → w.unanswered = w.late
  closed : w.stage = .closed → w.unanswered = []
  fresh : (tickets w.accepted ++ tickets w.refused).Nodup

theorem tickets_append (jobs more : List Job) :
    tickets (jobs ++ more) = tickets jobs ++ tickets more :=
  List.filterMap_append

/-- A call with a ticket of its own leaves all tickets distinct. -/
theorem nodup_tickets_append {jobs others : List Job} {job : Job}
    (hnodup : (tickets jobs ++ tickets others).Nodup)
    (hfresh : ∀ ticket ∈ job.ticket, ticket ∉ tickets jobs ∧ ticket ∉ tickets others) :
    (tickets (jobs ++ [job]) ++ tickets others).Nodup := by
  rw [tickets_append, List.append_assoc]
  cases hticket : job.ticket with
  | none => simpa [tickets, hticket] using hnodup
  | some ticket =>
      have hnew := hfresh ticket hticket
      have hone : tickets [job] ++ tickets others = ticket :: tickets others := by
        simp [tickets, hticket]
      rw [hone, List.nodup_middle, List.nodup_cons, List.mem_append]
      exact ⟨not_or.2 hnew, hnodup⟩

theorem accounted_start (sink : Sink) : Accounted { sink } where
  accepted := rfl
  prompt := fun _ => rfl
  late := nofun
  closed := nofun
  fresh := List.nodup_nil

theorem Accounted.step (haccounted : Accounted w) (hstep : Step size w next) : Accounted next := by
  obtain ⟨haccepted, hprompt, hlate, hclosed, hfresh⟩ := haccounted
  cases hstep with
  | @accept job hopen hended hjob =>
      have hadded : ∀ late : List Job, unanswered { w with
          queue := w.queue ++ [job], accepted := w.accepted ++ [job], late } =
            w.unanswered ++ [job] := by
        intro late
        rw [unanswered_of_hasEnded hended, List.append_assoc]
        exact unanswered_of_hasEnded hended
      refine ⟨?_, fun hlooked => ?_, fun hlooked => ?_, fun hstage => ?_, ?_⟩
      · rw [hadded, ← List.append_assoc, ← haccepted]
      · exact (if_neg (by rw [hlooked]; exact nofun)).trans (hprompt hlooked)
      · rw [hadded, hlate hlooked]
        exact (if_pos hlooked).symm
      · exact absurd (show w.stage = .closed from hstage) fun heq => absurd (heq ▸ hended) nofun
      · exact nodup_tickets_append hfresh hjob
  | @refuse job hopen hstage hjob =>
      refine ⟨haccepted, hprompt, hlate, hclosed, ?_⟩
      rw [List.nodup_append_comm] at hfresh ⊢
      exact nodup_tickets_append hfresh fun ticket hticket => (hjob ticket hticket).symm
  | close => exact ⟨haccepted, hprompt, hlate, hclosed, hfresh⟩
  | receive hstage hqueue =>
      refine ⟨?_, fun _ => hprompt (hstage ▸ rfl), nofun, nofun, hfresh⟩
      simpa [unanswered, hstage, hqueue, WriterStage.inHand] using haccepted
  | finish hstage hqueue hopen =>
      refine ⟨?_, fun _ => hprompt (hstage ▸ rfl), nofun, fun _ => hqueue, hfresh⟩
      simpa [unanswered, hstage, WriterStage.inHand] using haccepted
  | write hstage =>
      refine ⟨?_, fun _ => hprompt (hstage ▸ rfl), nofun, nofun, hfresh⟩
      simpa [unanswered, hstage, WriterStage.inHand] using haccepted
  | @complete job result hstage =>
      obtain hafter | ⟨cause, hafter⟩ := WriterStage.after_cases result
      all_goals
        rw [hafter]
        refine ⟨?_, fun _ => hprompt (hstage ▸ rfl), nofun, nofun, hfresh⟩
        simpa [unanswered, hstage, WriterStage.inHand] using haccepted
  | take hstage hqueue =>
      refine ⟨?_, fun _ => hprompt (hstage ▸ rfl), nofun, nofun, hfresh⟩
      simpa [unanswered, hstage, hqueue, WriterStage.inHand] using haccepted
  | drop hstage =>
      refine ⟨?_, fun _ => hprompt (hstage ▸ rfl), nofun, nofun, hfresh⟩
      simpa [unanswered, hstage, WriterStage.inHand] using haccepted
  | seeEmpty hstage hqueue =>
      refine ⟨?_, nofun, fun _ => ?_, nofun, hfresh⟩
      · simpa [unanswered, hstage, WriterStage.inHand] using haccepted
      · exact hqueue.trans (hprompt (hstage ▸ rfl)).symm
  | announce hstage =>
      have hkept : w.unanswered = w.queue := by simp [unanswered, hstage, WriterStage.inHand]
      refine ⟨?_, nofun, fun _ => ?_, nofun, hfresh⟩
      · rw [haccepted, hkept]
        rfl
      · exact hkept.symm.trans (hlate (hstage ▸ rfl))
  | leave hstage =>
      refine ⟨?_, nofun, fun _ => rfl, nofun, hfresh⟩
      rw [haccepted, hlate (hstage ▸ rfl)]
      rfl

theorem Run.accounted (hrun : Run size { sink } w) : Accounted w := by
  induction hrun with
  | refl => exact accounted_start sink
  | step hrun hstep ih => exact ih.step hstep

theorem Accounted.unanswered_of_ended (haccounted : Accounted w)
    (hended : w.stage.hasEnded = true) : w.unanswered = w.late := by
  cases hstage : w.stage with
  | stopped => exact haccounted.late (hstage ▸ rfl)
  | closed => rw [haccounted.closed hstage, haccounted.prompt (hstage ▸ rfl)]
  | _ => exact absurd (hstage ▸ hended) nofun

theorem mem_tickets {jobs : List Job} {job : Job} (hjob : job ∈ jobs) {ticket : Nat}
    (hticket : ticket ∈ job.ticket) : ticket ∈ tickets jobs :=
  List.mem_filterMap.2 ⟨job, hjob, hticket⟩

/-- The tickets of the answered messages, of those without an answer and of the refused ones are
all different. -/
theorem Accounted.nodup_tickets (haccounted : Accounted w) :
    (tickets (w.answers.map (·.job)) ++ (tickets w.unanswered ++ tickets w.refused)).Nodup := by
  have hfresh := haccounted.fresh
  rwa [haccounted.accepted, tickets_append, List.append_assoc] at hfresh

theorem Accounted.tellings_of_unanswered (haccounted : Accounted w) {job : Job}
    (hjob : job ∈ w.unanswered ++ w.refused) {ticket : Nat} (hticket : ticket ∈ job.ticket) :
    w.tellings ticket = 0 := by
  refine List.count_eq_zero_of_not_mem fun hanswered => ?_
  have hmem : ticket ∈ tickets w.unanswered ++ tickets w.refused :=
    tickets_append _ _ ▸ mem_tickets hjob hticket
  exact List.disjoint_of_nodup_append haccounted.nodup_tickets hanswered hmem

theorem Accounted.tellings_of_answered (haccounted : Accounted w) {job : Job}
    (hjob : job ∈ w.answers.map (·.job)) {ticket : Nat} (hticket : ticket ∈ job.ticket) :
    w.tellings ticket = 1 :=
  List.count_eq_one_of_mem haccounted.nodup_tickets.of_append_left (mem_tickets hjob hticket)

/-- **Every accepted message is answered once by the end of the writer, unless it is late**, and
late messages are never answered.  Nobody is told about a refused message, nobody is told twice,
and no message is late for a writer that ends because its queue was closed. -/
theorem told_once_unless_late (hrun : Run size { sink } w) :
    (∀ job ∈ w.refused, ∀ ticket ∈ job.ticket, w.tellings ticket = 0) ∧
      (∀ job ∈ w.accepted, ∀ ticket ∈ job.ticket, w.tellings ticket ≤ 1) ∧
      (w.stage.hasEnded = true → ∀ job ∈ w.accepted, ∀ ticket ∈ job.ticket,
        (job ∉ w.late → w.tellings ticket = 1) ∧ (job ∈ w.late → w.tellings ticket = 0)) ∧
      (w.stage = .closed → w.late = []) := by
  have haccounted := hrun.accounted
  refine ⟨fun job hjob ticket hticket => ?_, fun job hjob ticket hticket => ?_,
    fun hended job hjob ticket hticket => ⟨fun hprompt => ?_, fun hlate => ?_⟩, fun hclosed => ?_⟩
  · exact haccounted.tellings_of_unanswered (List.mem_append_right _ hjob) hticket
  · exact List.nodup_iff_count_le_one.1 haccounted.nodup_tickets.of_append_left ticket
  · rw [haccounted.accepted, haccounted.unanswered_of_ended hended, List.mem_append] at hjob
    exact haccounted.tellings_of_answered (hjob.resolve_right hprompt) hticket
  · rw [← haccounted.unanswered_of_ended hended] at hlate
    exact haccounted.tellings_of_unanswered (List.mem_append_left _ hlate) hticket
  · exact haccounted.prompt (hclosed ▸ rfl)

/-- A message with a ticket. -/
def ticketed (ticket : Nat) : Job :=
  { message := ⟨3, .ofBytes [1]⟩, ticket := some ticket }

/-- A stream that takes nothing. -/
def brokenPipe : Sink :=
  { writes := [.fault ⟨.other, "broken pipe"⟩] }

/-- A writer after its stream failed on a first message, while a second one came when it had seen
the queue empty. -/
def overtaken : Writing where
  stage := .stopped
  sink := {}
  accepted := [ticketed 0, ticketed 1]
  late := [ticketed 1]
  answers := [⟨ticketed 0, .error (.io "broken pipe")⟩]
  failures := [.io "broken pipe"]

theorem run_overtaken : Run 1024 { sink := brokenPipe } overtaken := by
  have hfirst : IsFresh { sink := brokenPipe } (ticketed 0) := fun _ _ => ⟨nofun, nofun⟩
  have hstart : Run 1024 { sink := brokenPipe } { sink := brokenPipe } := .refl
  have hwritten := ((hstart.step (.accept rfl rfl hfirst)).step (.receive rfl rfl)).step
    (.write rfl)
  have hempty := (hwritten.step (.complete rfl)).step (.seeEmpty rfl rfl)
  have hsecond : ∀ ticket ∈ (ticketed 1).ticket, ticket ∉ [0] ∧ ticket ∉ [] := by decide
  exact ((hempty.step (.accept rfl rfl hsecond)).step (.announce rfl)).step (.leave rfl)

/-- The first message is answered, the second one never. -/
theorem told_once_unless_late_overtaken :
    Run 1024 { sink := brokenPipe } overtaken ∧
      overtaken.tellings 0 = 1 ∧ overtaken.tellings 1 = 0 := by
  obtain ⟨-, -, htold, -⟩ := told_once_unless_late run_overtaken
  have hfirst := htold rfl (ticketed 0) List.mem_cons_self 0 rfl
  have hsecond := htold rfl (ticketed 1) (List.mem_cons_of_mem _ List.mem_cons_self) 1 rfl
  have hprompt : ticketed 0 ∉ overtaken.late := fun hlate =>
    absurd (congrArg Job.ticket (List.mem_singleton.1 hlate)) (by decide)
  exact ⟨run_overtaken, hfirst.1 hprompt, hsecond.2 List.mem_cons_self⟩

/-- A writer may accept a message and end without ever answering it. -/
theorem not_told_overtaken :
    ¬ ∀ (size : Nat) (sink : Sink) (w : Writing), Run size { sink } w → w.stage.hasEnded = true →
      ∀ job ∈ w.accepted, ∀ ticket ∈ job.ticket, w.tellings ticket = 1 := by
  intro hall
  have htold := hall 1024 brokenPipe overtaken run_overtaken rfl (ticketed 1)
    (List.mem_cons_of_mem _ List.mem_cons_self) 1 rfl
  exact absurd htold (by decide)

end Writing

end Overlay.Wire
