import Mathlib.Data.List.Perm.Subperm
import Overlay.Proofs.Pool.Broadcasting
import Overlay.Proofs.Wire.Queueing

/-!
# Waiting for the verdicts on a broadcast

A caller that has handed out copies of a message waits for as many verdicts.
The writers go on in any order meanwhile, at any pace and on any streams, and
others hand over messages of their own.  A verdict is looked at in the order in
which it came.  The waiting ends with the last verdict, or when nobody can tell
one any more because the copies that are left were given up with their queues,
or when time has run out.

Unless time has run out, what the caller has counted are all of the copies that
were written.  `Sound` is the invariant that carries this.
-/

namespace Overlay

open Wire

namespace Wire

/-- The verdicts on messages with tickets. -/
def answers (verdicts : List Verdict) : List (Nat × Except NetError Unit) :=
  verdicts.filterMap fun verdict => verdict.job.ticket.map fun ticket => (ticket, verdict.result)

/-- What a step of the writing says about the message of a ticket. -/
def Outbox.Step.answers (step : Outbox.Step) (ticket : Nat) : List (Nat × Except NetError Unit) :=
  (Wire.answers step.verdict.toList).filter (·.1 = ticket)

end Wire

/-- A caller that waits for the verdicts on copies of a message. -/
structure BroadcastWait where
  /-- The ticket of each copy, and the queue that it was handed to. -/
  writers : List (Nat × Outbox)
  /-- The verdicts that have come and were not looked at. -/
  arrived : List (Except NetError Unit) := []
  /-- How many verdicts are still waited for. -/
  awaited : Nat
  /-- How many good verdicts were seen. -/
  reached : Nat := 0
  /-- Whether nobody could tell a verdict any more. -/
  forsaken : Bool := false
  /-- Whether time has run out. -/
  expired : Bool := false
  /-- The verdicts on the copies with their tickets, in the order in which they came. -/
  told : List (Nat × Except NetError Unit) := []

/-- The messages that wait on a peer have older tickets, if any. -/
def Peer.Older (peer : Peer) (first : Nat) : Prop :=
  ∀ session, peer.session = some session →
    ∀ ticket ∈ tickets session.outbox.queue, ticket < first

instance (peer : Peer) (first : Nat) : Decidable (peer.Older first) :=
  inferInstanceAs (Decidable (∀ session, peer.session = some session →
    ∀ ticket ∈ tickets session.outbox.queue, ticket < first))

/-- The tickets that are in use were drawn from the counter of the pool. -/
structure Pool.Drawn (pool : Pool) : Prop where
  queued : ∀ peer ∈ pool.members, peer.Older pool.tickets
  judged : ∀ entry ∈ pool.verdicts, entry.1 < pool.tickets

namespace BroadcastWait

/-- The waiting for the verdicts on the copies that were handed out. -/
def start (sent : List Nat × Pool) : BroadcastWait where
  writers := sent.1.zip (sent.2.members.filterMap (·.outbox?))
  awaited := sent.1.length

/-- Verdicts were told, and the writers have gone on. -/
def hear (wait : BroadcastWait) (writers : List (Nat × Outbox))
    (answers : List (Nat × Except NetError Unit)) : BroadcastWait :=
  { wait with
    writers
    arrived := wait.arrived ++ answers.map (·.2)
    told := wait.told ++ answers }

/-- The caller has stopped waiting. -/
def IsOver (wait : BroadcastWait) : Prop :=
  wait.awaited = 0 ∨ wait.forsaken = true ∨ wait.expired = true

/-- Whether the copy of a ticket was written. -/
def confirms (wait : BroadcastWait) (ticket : Nat) : Bool :=
  wait.told.any fun entry => entry.1 = ticket && entry.2.isOk

/-- What the writers, those who hand over messages, and the caller do. -/
inductive Step : BroadcastWait → BroadcastWait → Prop
  -- a writer goes on, on a stream that answers somehow
  | write {wait : BroadcastWait} {front rest : List (Nat × Outbox)} {ticket size : Nat}
      {outbox : Outbox} {sink : Sink} {step : Outbox.Step}
      (hwriters : wait.writers = front ++ (ticket, outbox) :: rest)
      (hstep : outbox.step? size sink = some step) :
      Step wait (wait.hear (front ++ (ticket, step.outbox) :: rest) (step.answers ticket))
  -- somebody else hands over a message
  | queue {wait : BroadcastWait} {front rest : List (Nat × Outbox)} {ticket : Nat}
      {outbox next : Outbox} {job : Job} (hwriters : wait.writers = front ++ (ticket, outbox) :: rest)
      (hjob : job.ticket ≠ some ticket) (henqueue : outbox.enqueue job = .ok next) :
      Step wait { wait with writers := front ++ (ticket, next) :: rest }
  -- the caller looks at a verdict
  | receive {wait : BroadcastWait} {awaited : Nat} {result : Except NetError Unit}
      {rest : List (Except NetError Unit)} (hwaits : ¬ wait.IsOver)
      (hawaited : wait.awaited = awaited + 1) (harrived : wait.arrived = result :: rest) :
      Step wait { wait with
        awaited
        arrived := rest
        reached := if result.isOk then wait.reached + 1 else wait.reached }
  -- no verdict has come, and none of the copies waits for one
  | forsake {wait : BroadcastWait} (hwaits : ¬ wait.IsOver) (harrived : wait.arrived = [])
      (hgone : ∀ writer ∈ wait.writers, writer.1 ∉ tickets writer.2.queue) :
      Step wait { wait with forsaken := true }
  -- no verdict has come, and time runs out
  | expire {wait : BroadcastWait} (hwaits : ¬ wait.IsOver) (harrived : wait.arrived = []) :
      Step wait { wait with expired := true }

inductive Run (first : BroadcastWait) : BroadcastWait → Prop
  | refl : Run first first
  | step {wait next : BroadcastWait} (hrun : Run first wait) (hstep : Step wait next) :
      Run first next

/-! ## What a step of the writing says -/

section Writing

variable {outbox next : Outbox} {size ticket : Nat} {sink : Sink} {step : Outbox.Step}

/-- A step takes the first message from a queue and says something about it, or it says nothing and
leaves nothing. -/
theorem step_cases (hstep : outbox.step? size sink = some step) :
    (∃ verdict, step.verdict = some verdict ∧ outbox.queue = verdict.job :: step.outbox.queue) ∨
      step.verdict = none ∧ step.outbox.queue = [] := by
  obtain ⟨queue, phase⟩ := outbox
  cases phase with
  | running =>
      cases queue with
      | nil => exact absurd hstep nofun
      | cons job rest =>
          obtain rfl := Option.some.inj hstep
          exact Or.inl ⟨_, rfl, rfl⟩
  | draining cause =>
      cases queue with
      | nil =>
          obtain rfl := Option.some.inj hstep
          exact Or.inr ⟨rfl, rfl⟩
      | cons job rest =>
          obtain rfl := Option.some.inj hstep
          exact Or.inl ⟨_, rfl, rfl⟩
  | closing cause =>
      obtain rfl := Option.some.inj hstep
      exact Or.inr ⟨rfl, rfl⟩
  | ended => exact absurd hstep nofun

theorem answers_of_verdict {verdict : Verdict} (hverdict : step.verdict = some verdict)
    (ticket : Nat) : step.answers ticket =
      if verdict.job.ticket = some ticket then [(ticket, verdict.result)] else [] := by
  rw [Outbox.Step.answers, hverdict]
  cases hticket : verdict.job.ticket with
  | none => simp [answers, hticket]
  | some other => by_cases hsame : other = ticket <;> simp [answers, hticket, hsame]

theorem answers_of_none (hverdict : step.verdict = none) (ticket : Nat) :
    step.answers ticket = [] := by
  rw [Outbox.Step.answers, hverdict]
  rfl

/-- A copy that is judged has left the queue. -/
theorem count_step (hstep : outbox.step? size sink = some step) (ticket : Nat) :
    (tickets step.outbox.queue).count ticket + (step.answers ticket).length ≤
      (tickets outbox.queue).count ticket := by
  rcases step_cases hstep with ⟨verdict, hverdict, hqueue⟩ | ⟨hverdict, hqueue⟩
  · rw [hqueue, answers_of_verdict hverdict, tickets, tickets, List.filterMap_cons]
    cases hticket : verdict.job.ticket with
    | none => simp
    | some other => by_cases hsame : other = ticket <;> simp [hsame]
  · rw [answers_of_none hverdict, hqueue]
    exact Nat.zero_le _

/-- A message of another ticket that is handed over is no copy. -/
theorem count_enqueue {job : Job} (henqueue : outbox.enqueue job = .ok next)
    (hjob : job.ticket ≠ some ticket) :
    (tickets next.queue).count ticket = (tickets outbox.queue).count ticket := by
  rw [Outbox.enqueue] at henqueue
  split_ifs at henqueue
  obtain rfl := Except.ok.inj henqueue
  rw [Writing.tickets_append, List.count_append]
  cases hticket : job.ticket with
  | none => simp [tickets, hticket]
  | some other =>
      have hother : other ≠ ticket := fun hsame => hjob (hsame ▸ hticket)
      simp [tickets, hticket, hother]

/-- A queue that was given up is empty. -/
theorem queue_of_step (hstep : outbox.step? size sink = some step)
    (hended : step.outbox.phase = .ended) : step.outbox.queue = [] := by
  obtain ⟨queue, phase⟩ := outbox
  cases phase with
  | running =>
      cases queue with
      | nil => exact absurd hstep nofun
      | cons job rest =>
          obtain rfl := Option.some.inj hstep
          simp only at hended
          split at hended
          · exact absurd hended nofun
          · split at hended <;> exact absurd hended nofun
  | draining cause =>
      cases queue with
      | nil =>
          obtain rfl := Option.some.inj hstep
          rfl
      | cons job rest =>
          obtain rfl := Option.some.inj hstep
          exact absurd hended nofun
  | closing cause =>
      obtain rfl := Option.some.inj hstep
      rfl
  | ended => exact absurd hstep nofun

/-- A writer with something in its queue goes on. -/
theorem exists_step? (hqueue : outbox.queue ≠ []) (hphase : outbox.phase ≠ .ended) (size : Nat)
    (sink : Sink) : ∃ step, outbox.step? size sink = some step := by
  obtain ⟨queue, phase⟩ := outbox
  cases queue with
  | nil => exact absurd rfl hqueue
  | cons job rest =>
      cases phase with
      | ended => exact absurd rfl hphase
      | _ => exact ⟨_, rfl⟩

end Writing

/-! ## The accounts of the caller -/

/-- The tickets are those that were drawn.  Each copy waits in its queue, or its verdict was told,
or it was given up, and never two of that.  What was told is what the caller has seen and what it
has not looked at. -/
structure Sound (drawn : List Nat) (wait : BroadcastWait) : Prop where
  fresh : drawn.Nodup
  handed : wait.writers.map (·.1) = drawn
  once : ∀ writer ∈ wait.writers,
    (tickets writer.2.queue).count writer.1 + (wait.told.map (·.1)).count writer.1 ≤ 1
  known : ∀ entry ∈ wait.told, entry.1 ∈ drawn
  seen : ∃ seen, wait.told.map (·.2) = seen ++ wait.arrived ∧
    wait.reached = seen.countP (·.isOk) ∧ wait.awaited + seen.length = drawn.length
  forsaken : wait.forsaken = true →
    wait.arrived = [] ∧ ∀ writer ∈ wait.writers, writer.1 ∉ tickets writer.2.queue
  ended : ∀ writer ∈ wait.writers, writer.2.phase = .ended → writer.2.queue = []

variable {drawn : List Nat} {wait next : BroadcastWait} {front rest : List (Nat × Outbox)}
  {ticket : Nat}
  {outbox after : Outbox}

/-- The writers after one of them went on: that one, and others with other tickets. -/
theorem Sound.mem_writers (hsound : Sound drawn wait)
    (hwriters : wait.writers = front ++ (ticket, outbox) :: rest) (after : Outbox) :
    ∀ writer ∈ front ++ (ticket, after) :: rest,
      writer = (ticket, after) ∨ writer ∈ wait.writers ∧ writer.1 ≠ ticket := by
  have hfresh := hsound.fresh
  rw [← hsound.handed, hwriters, List.map_append, List.map_cons, List.nodup_middle,
    ← List.map_append, List.nodup_cons] at hfresh
  intro writer hwriter
  rw [List.mem_append, List.mem_cons, or_left_comm, ← List.mem_append] at hwriter
  refine hwriter.imp_right fun hother => ⟨?_, fun hsame => hfresh.1 ?_⟩
  · rw [hwriters, List.mem_append, List.mem_cons, or_left_comm, ← List.mem_append]
    exact Or.inr hother
  · exact List.mem_map.2 ⟨writer, hother, hsame⟩

theorem mem_writer (hwriters : wait.writers = front ++ (ticket, outbox) :: rest) :
    (ticket, outbox) ∈ wait.writers := by
  rw [hwriters]
  exact List.mem_append_right _ List.mem_cons_self

theorem Sound.handed_replaced (hsound : Sound drawn wait)
    (hwriters : wait.writers = front ++ (ticket, outbox) :: rest) (after : Outbox) :
    (front ++ (ticket, after) :: rest).map (·.1) = drawn := by
  rw [← hsound.handed, hwriters, List.map_append, List.map_append]
  rfl

/-- A writer goes on. -/
theorem Sound.write (hsound : Sound drawn wait) {size : Nat} {sink : Sink} {step : Outbox.Step}
    (hwriters : wait.writers = front ++ (ticket, outbox) :: rest)
    (hstep : outbox.step? size sink = some step) :
    Sound drawn (wait.hear (front ++ (ticket, step.outbox) :: rest) (step.answers ticket)) := by
  have hcount := count_step hstep ticket
  have hmem := hsound.mem_writers hwriters step.outbox
  have hmine : (ticket, outbox) ∈ wait.writers := mem_writer hwriters
  have hown : ∀ entry ∈ step.answers ticket, entry.1 = ticket := fun entry hentry => by
    simpa using (List.mem_filter.1 hentry).2
  refine ⟨hsound.fresh, hsound.handed_replaced hwriters step.outbox, ?_, ?_, ?_, ?_, ?_⟩
  · intro writer hwriter
    have hfirsts : (step.answers ticket).map (·.1) =
        List.replicate (step.answers ticket).length ticket :=
      List.eq_replicate_iff.2 ⟨List.length_map _, List.forall_mem_map.2 hown⟩
    rw [hear, List.map_append, List.count_append, hfirsts]
    rcases hmem writer hwriter with rfl | ⟨hother, hne⟩
    · have hbefore := hsound.once _ hmine
      rw [List.count_replicate_self]
      simp only at hbefore ⊢
      omega
    · rw [List.count_replicate, if_neg (by simpa using hne.symm), Nat.add_zero]
      exact hsound.once writer hother
  · intro entry hentry
    rcases List.mem_append.1 hentry with hbefore | hnow
    · exact hsound.known entry hbefore
    · rw [hown entry hnow, ← hsound.handed]
      exact List.mem_map_of_mem hmine
  · obtain ⟨seen, htold, hreached, hawaited⟩ := hsound.seen
    refine ⟨seen, ?_, hreached, hawaited⟩
    rw [hear, List.map_append, htold, List.append_assoc]
  · intro hgone
    obtain ⟨harrived, hleft⟩ := hsound.forsaken hgone
    have hzero : (tickets outbox.queue).count ticket = 0 := List.count_eq_zero.2 (hleft _ hmine)
    have hsilent : step.answers ticket = [] := List.length_eq_zero_iff.1 (by omega)
    refine ⟨by rw [hear, harrived, hsilent]; rfl, fun writer hwriter => ?_⟩
    rcases hmem writer hwriter with rfl | ⟨hother, -⟩
    · show ticket ∉ tickets step.outbox.queue
      exact List.count_eq_zero.1 (by omega)
    · exact hleft writer hother
  · intro writer hwriter hphase
    rcases hmem writer hwriter with rfl | ⟨hother, -⟩
    · exact queue_of_step hstep hphase
    · exact hsound.ended writer hother hphase

/-- Somebody else hands over a message. -/
theorem Sound.queue (hsound : Sound drawn wait) {job : Job}
    (hwriters : wait.writers = front ++ (ticket, outbox) :: rest)
    (hjob : job.ticket ≠ some ticket) (henqueue : outbox.enqueue job = .ok after) :
    Sound drawn { wait with writers := front ++ (ticket, after) :: rest } := by
  have hcount := count_enqueue henqueue hjob
  have hmem := hsound.mem_writers hwriters after
  have hmine : (ticket, outbox) ∈ wait.writers := mem_writer hwriters
  refine ⟨hsound.fresh, hsound.handed_replaced hwriters after, ?_, hsound.known, hsound.seen, ?_,
    ?_⟩
  · intro writer hwriter
    rcases hmem writer hwriter with rfl | ⟨hother, -⟩
    · have hbefore := hsound.once _ hmine
      simp only at hbefore ⊢
      omega
    · exact hsound.once writer hother
  · intro hgone
    obtain ⟨harrived, hleft⟩ := hsound.forsaken hgone
    refine ⟨harrived, fun writer hwriter => ?_⟩
    rcases hmem writer hwriter with rfl | ⟨hother, -⟩
    · exact List.count_eq_zero.1 (hcount.trans (List.count_eq_zero.2 (hleft _ hmine)))
    · exact hleft writer hother
  · intro writer hwriter hphase
    rcases hmem writer hwriter with rfl | ⟨hother, -⟩
    · rw [Outbox.enqueue] at henqueue
      split_ifs at henqueue with hstopped
      obtain rfl := Except.ok.inj henqueue
      exact absurd hphase hstopped
    · exact hsound.ended writer hother hphase

theorem Sound.step (hsound : Sound drawn wait) (hstep : Step wait next) : Sound drawn next := by
  cases hstep with
  | write hwriters hstep => exact hsound.write hwriters hstep
  | queue hwriters hjob henqueue => exact hsound.queue hwriters hjob henqueue
  | @receive awaited result rest hwaits hawaited harrived =>
      obtain ⟨seen, htold, hreached, hlength⟩ := hsound.seen
      refine { hsound with
        seen := ⟨seen ++ [result], ?_, ?_, ?_⟩
        forsaken := fun hgone => absurd (Or.inr (Or.inl hgone)) hwaits }
      · rw [htold, harrived, List.append_assoc]
        rfl
      · simp only [List.countP_append, List.countP_singleton, hreached]
        split <;> rfl
      · rw [← hlength, hawaited, List.length_append, List.length_singleton]
        show awaited + (seen.length + 1) = _
        omega
  | forsake hwaits harrived hgone => exact { hsound with forsaken := fun _ => ⟨harrived, hgone⟩ }
  | expire hwaits harrived => exact { hsound with }

theorem Run.sound {first : BroadcastWait} (hrun : Run first wait) (hfirst : Sound drawn first) :
    Sound drawn wait := by
  induction hrun with
  | refl => exact hfirst
  | step hrun hstep ih => exact ih.step hstep

/-- At the start every copy waits in its queue. -/
theorem sound_start {pool : Pool} (hids : (pool.members.map (·.id)).Nodup) (hdrawn : pool.Drawn)
    (message : Message) : Sound (List.range' pool.tickets pool.takers)
      (start (pool.broadcastTicketed message)) := by
  rw [Pool.broadcastTicketed_eq hids]
  refine ⟨List.nodup_range', ?_, ?_, nofun, ⟨[], rfl, rfl, rfl⟩, nofun, ?_⟩
  · refine List.map_fst_zip ?_
    rw [List.length_filterMap_eq_countP, countP_handedOut, List.length_range', Pool.takers]
  · intro writer hwriter
    obtain ⟨peer, hmember, outbox, houtbox, hcopy⟩ := zip_outboxes_handedOut hwriter
    obtain ⟨-, session, hsession, rfl, -⟩ := Peer.outbox?_eq_some_iff.1 houtbox
    have hbound : pool.tickets ≤ writer.1 :=
      (List.mem_range'_1.1 (List.of_mem_zip hwriter).1).1
    have hnew : (tickets session.outbox.queue).count writer.1 = 0 := by
      refine List.count_eq_zero.2 fun hticket => ?_
      exact absurd (hdrawn.queued peer hmember session hsession _ hticket) (Nat.not_lt.2 hbound)
    rw [hcopy, Writing.tickets_append, List.count_append, hnew]
    simp [start, tickets]
  · intro writer hwriter hended
    obtain ⟨peer, hmember, outbox, houtbox, hcopy⟩ := zip_outboxes_handedOut hwriter
    obtain ⟨-, session, -, rfl, hphase⟩ := Peer.outbox?_eq_some_iff.1 houtbox
    exact absurd ((congrArg Outbox.phase hcopy).symm.trans hended) hphase

/-! ## What the caller has counted -/

/-- No copy is told about twice. -/
theorem Sound.nodup_told (hsound : Sound drawn wait) : (wait.told.map (·.1)).Nodup := by
  refine List.nodup_iff_count_le_one.2 fun ticket => ?_
  by_cases htold : ticket ∈ wait.told.map (·.1)
  · obtain ⟨entry, hentry, rfl⟩ := List.mem_map.1 htold
    have hdrawn := hsound.known entry hentry
    rw [← hsound.handed] at hdrawn
    obtain ⟨writer, hwriter, hsame⟩ := List.mem_map.1 hdrawn
    have honce := hsound.once writer hwriter
    rw [hsame] at honce
    omega
  · rw [List.count_eq_zero.2 htold]
    exact Nat.zero_le 1

/-- There are no more verdicts than copies. -/
theorem Sound.length_told_le (hsound : Sound drawn wait) : wait.told.length ≤ drawn.length := by
  have hsubset : wait.told.map (·.1) ⊆ drawn := by
    intro ticket hticket
    obtain ⟨entry, hentry, rfl⟩ := List.mem_map.1 hticket
    exact hsound.known entry hentry
  have hlength := (hsound.nodup_told.subperm hsubset).length_le
  rwa [List.length_map] at hlength

/-- A caller that has looked at all verdicts has counted the copies that were written. -/
theorem Sound.reached_of_arrived (hsound : Sound drawn wait) (harrived : wait.arrived = []) :
    wait.reached = drawn.countP wait.confirms := by
  obtain ⟨seen, htold, hreached, -⟩ := hsound.seen
  rw [harrived, List.append_nil] at htold
  have hgood : List.Perm ((wait.told.filter (·.2.isOk)).map (·.1))
      (drawn.filter wait.confirms) := by
    refine (List.perm_ext_iff_of_nodup ?_ (hsound.fresh.filter _)).2 fun ticket => ?_
    · exact hsound.nodup_told.sublist (List.filter_sublist.map _)
    · simp only [List.mem_map, List.mem_filter, confirms, List.any_eq_true, Bool.and_eq_true,
        decide_eq_true_eq]
      constructor
      · rintro ⟨entry, ⟨hentry, hok⟩, rfl⟩
        exact ⟨hsound.known entry hentry, entry, hentry, rfl, hok⟩
      · rintro ⟨-, entry, hentry, rfl, hok⟩
        exact ⟨entry, ⟨hentry, hok⟩, rfl⟩
  calc wait.reached
      = (wait.told.map (·.2)).countP (·.isOk) := by rw [hreached, htold]
    _ = ((wait.told.filter (·.2.isOk)).map (·.1)).length := by
        rw [List.countP_map, List.countP_eq_length_filter, List.length_map]
        rfl
    _ = drawn.countP wait.confirms := by rw [hgood.length_eq, List.countP_eq_length_filter]

/-- A caller that has stopped waiting in time has looked at all verdicts. -/
theorem Sound.arrived_of_isOver (hsound : Sound drawn wait) (hover : wait.IsOver)
    (htime : wait.expired = false) : wait.arrived = [] := by
  rcases hover with hnone | hforsaken | hexpired
  · obtain ⟨seen, htold, -, hawaited⟩ := hsound.seen
    have hlength := congrArg List.length htold
    have hbound := hsound.length_told_le
    rw [List.length_map, List.length_append] at hlength
    exact List.length_eq_zero_iff.1 (by omega)
  · exact (hsound.forsaken hforsaken).1
  · exact absurd (htime.symm.trans hexpired) nofun

/-- As long as the caller waits, it has a verdict to look at, or nobody can tell one any more, or
the writer of a copy goes on. -/
theorem Sound.exists_step (hsound : Sound drawn wait) (hwaits : ¬ wait.IsOver) :
    ∃ next, Step wait next ∧ next.expired = false := by
  have htime : wait.expired = false := by
    simpa using fun hexpired => hwaits (Or.inr (Or.inr hexpired))
  cases harrived : wait.arrived with
  | cons result rest =>
      obtain ⟨awaited, hawaited⟩ := Nat.exists_eq_succ_of_ne_zero fun hnone => hwaits (Or.inl hnone)
      exact ⟨_, .receive hwaits hawaited harrived, htime⟩
  | nil =>
      by_cases hgone : ∀ writer ∈ wait.writers, writer.1 ∉ tickets writer.2.queue
      · exact ⟨_, .forsake hwaits harrived hgone, htime⟩
      · push Not at hgone
        obtain ⟨⟨ticket, outbox⟩, hwriter, hcopy⟩ := hgone
        obtain ⟨front, rest, hwriters⟩ := List.append_of_mem hwriter
        have hqueue : outbox.queue ≠ [] := by
          rintro hempty
          rw [show tickets outbox.queue = [] by rw [hempty]; rfl] at hcopy
          exact absurd hcopy List.not_mem_nil
        have hphase := fun hended => hqueue (hsound.ended _ hwriter hended)
        obtain ⟨step, hstep⟩ := exists_step? hqueue hphase 1 {}
        exact ⟨_, .write hwriters hstep, htime⟩

end BroadcastWait

end Overlay
