import Overlay.Proofs.Pool.Awaiting

/-!
# How far members write

A session writes until its queue is empty, its writer has stopped, or its line
has no room for the message that is next.  When a world has written that is so
for every member: nobody reads meanwhile, so a line that had no room has none
in the end.  What was judged and what still waits was in the queues before.
-/

namespace Overlay

open Wire

/-! ## Room on a line -/

theorem Line.hasRoom_carry {line : Line} {size : Nat} (hfull : line.hasRoom size = false)
    (bytes : Bytes) : (line.carry bytes).hasRoom size = false := by
  cases hpaused : line.paused with
  | none => simp [hasRoom, hpaused] at hfull
  | some held =>
      simp only [hasRoom, hpaused, decide_eq_false_iff_not, carry, Option.map_some] at hfull ⊢
      omega

/-- A line whose far end reads goes on having room. -/
theorem Line.paused_carry {line : Line} (hreads : line.paused = none) (bytes : Bytes) :
    (line.carry bytes).paused = none := by
  rw [carry, hreads]
  rfl

theorem Net.line_change (net : Net) (n m : Nat) (f : Line → Line) :
    (net.change n f).line m =
      if n = m ∧ n < net.lines.length then f (net.line m) else net.line m := by
  rw [change, line, line, List.getElem?_modify]
  by_cases hsame : n = m
  · subst hsame
    by_cases hlt : n < net.lines.length
    · simp [hlt]
    · simp [hlt]
  · simp [hsame]

namespace Session

variable {session : Session} {line later : Line}

theorem isBlocked_mono (hblocked : session.isBlocked line = true)
    (hroom : ∀ size, line.hasRoom size = false → later.hasRoom size = false) :
    session.isBlocked later = true := by
  rw [isBlocked] at hblocked ⊢
  cases hqueue : session.outbox.queue with
  | nil => simp [hqueue] at hblocked
  | cons job rest =>
      simp only [hqueue, List.head?_cons, Option.any_some, Bool.not_eq_true'] at hblocked ⊢
      exact hroom _ hblocked

/-- What carrying bytes leaves true of a line, the writing of a session leaves true of it. -/
theorem drain_carried {P : Line → Prop} (hcarry : ∀ line bytes, P line → P (Line.carry line bytes))
    (size fuel : Nat) (session : Session) (hline : P line) :
    P (session.drain size fuel line).2.1 := by
  induction fuel generalizing session line with
  | zero => exact hline
  | succ fuel ih =>
      rcases session.drain_cases size fuel line with ⟨hwaits, -⟩ | ⟨step, next, -, -, -, hdrain⟩
      · rw [hwaits]
        exact hline
      · rw [hdrain]
        exact ih next (hcarry line step.taken hline)

/-- A session with a step for each message has come to rest. -/
theorem rests_drain (size fuel : Nat) (session : Session) (line : Line)
    (hfuel : session.outbox.queue = [] ∨ session.outbox.queue.length < fuel) :
    (session.drain size fuel line).1.outbox.queue = [] ∨
      (session.drain size fuel line).1.outbox.phase = .ended ∨
      (session.drain size fuel line).1.isBlocked (session.drain size fuel line).2.1 = true := by
  induction fuel generalizing session line with
  | zero => exact Or.inl (hfuel.resolve_right (Nat.not_lt_zero _))
  | succ fuel ih =>
      rcases session.drain_cases size fuel line with
        ⟨hwaits, hblocked | hnone⟩ | ⟨step, next, hstep, -, houtbox, hdrain⟩
      · rw [hwaits]
        exact Or.inr (Or.inr hblocked)
      · rw [hwaits]
        by_contra hgoesOn
        push Not at hgoesOn
        obtain ⟨step, hstep⟩ := BroadcastWait.exists_step? hgoesOn.1 hgoesOn.2.1 size line.sink
        exact absurd (hnone.symm.trans hstep) nofun
      · rw [hdrain]
        refine ih next (line.carry step.taken) ?_
        rw [houtbox]
        -- a step takes a message from the queue, or leaves none
        rcases BroadcastWait.step_cases hstep with ⟨verdict, -, hqueue⟩ | ⟨-, hempty⟩
        · rw [hqueue] at hfuel
          exact Or.inr (Nat.lt_of_succ_lt_succ (hfuel.resolve_left nofun))
        · exact Or.inl hempty

/-- What a session judges, and what it leaves in its queue, was in its queue. -/
theorem sublist_drain (size fuel : Nat) (session : Session) (line : Line) :
    ((session.drain size fuel line).2.2.map (·.job) ++
      (session.drain size fuel line).1.outbox.queue).Sublist session.outbox.queue := by
  induction fuel generalizing session line with
  | zero => exact List.Sublist.refl _
  | succ fuel ih =>
      rcases session.drain_cases size fuel line with
        ⟨hwaits, -⟩ | ⟨step, next, hstep, -, houtbox, hdrain⟩
      · rw [hwaits]
        exact List.Sublist.refl _
      · have hlater := ih next (line.carry step.taken)
        rw [houtbox] at hlater
        rw [hdrain]
        rcases BroadcastWait.step_cases hstep with ⟨verdict, hverdict, hqueue⟩ | ⟨hverdict, hempty⟩
        · rw [hverdict, hqueue]
          exact hlater.cons_cons _
        · rw [hempty] at hlater
          rw [hverdict]
          exact hlater.trans (List.nil_sublist _)

end Session

/-! ## One member after the other -/

/-- A verdict with a ticket is on a message with that ticket. -/
theorem Wire.mem_tickets_of_answers {verdicts : List Verdict}
    {entry : Nat × Except NetError Unit} (hentry : entry ∈ answers verdicts) :
    entry.1 ∈ tickets (verdicts.map (·.job)) := by
  obtain ⟨verdict, hverdict, hanswer⟩ := List.mem_filterMap.1 hentry
  obtain ⟨ticket, hticket, rfl⟩ := Option.map_eq_some_iff.1 hanswer
  exact List.mem_filterMap.2 ⟨verdict.job, List.mem_map_of_mem hverdict, hticket⟩

theorem Wire.answers_append (verdicts more : List Verdict) :
    answers (verdicts ++ more) = answers verdicts ++ answers more :=
  List.filterMap_append

namespace Peer

variable {peer : Peer}

/-- Writing gives verdicts on older messages, and leaves older ones, if all that wait are older. -/
theorem Older.write {first : Nat} (holder : peer.Older first) (net : Net) :
    (∀ entry ∈ answers (peer.write net).2.2, entry.1 < first) ∧
      (peer.write net).1.Older first := by
  rw [Peer.write]
  cases hsession : peer.session with
  | none => exact ⟨List.forall_mem_nil _, holder⟩
  | some session =>
      have hsublist := session.sublist_drain peer.policy.chunkSize
        (session.outbox.queue.length + 3) (net.line session.line)
      have hwaited := (hsublist.filterMap (·.ticket)).subset
      refine ⟨fun entry hentry => ?_, fun after hafter ticket hticket => ?_⟩
      · refine holder session hsession entry.1 (hwaited ?_)
        rw [List.filterMap_append]
        exact List.mem_append_left _ (mem_tickets_of_answers hentry)
      · obtain rfl := Option.some.inj hafter
        refine holder session hsession ticket (hwaited ?_)
        rw [List.filterMap_append]
        exact List.mem_append_right _ hticket

theorem hasRoom_write (peer : Peer) {net : Net} {n needed : Nat}
    (hfull : (net.line n).hasRoom needed = false) :
    ((peer.write net).2.1.line n).hasRoom needed = false := by
  rw [write]
  cases hsession : peer.session with
  | none => exact hfull
  | some session =>
      dsimp only
      rw [Session.drain_line, Net.line_change]
      split
      · next hsame =>
        obtain ⟨rfl, -⟩ := hsame
        exact Session.drain_carried (P := fun line => line.hasRoom needed = false)
          (fun _ bytes hfull => Line.hasRoom_carry hfull bytes) _ _ session hfull
      · exact hfull

/-- A session has written all that it could: nothing waits on it, or its writer has stopped, or its
line has no room for the message that is next. -/
def HasRested (peer : Peer) (net : Net) : Prop :=
  ∀ session, peer.session = some session →
    session.outbox.queue = [] ∨ session.outbox.phase = .ended ∨
      session.isBlocked (net.line session.line) = true

theorem hasRested_write (peer : Peer) (net : Net) :
    (peer.write net).1.HasRested (peer.write net).2.1 := by
  intro after hafter
  rw [write] at hafter ⊢
  cases hsession : peer.session with
  | none =>
      rw [hsession] at hafter
      exact absurd (hsession.symm.trans hafter) (Option.some_ne_none after).symm
  | some session =>
      rw [hsession] at hafter
      obtain rfl := Option.some.inj hafter
      dsimp only
      rw [Session.drain_line, Net.line_change]
      have hrests := session.rests_drain peer.policy.chunkSize (session.outbox.queue.length + 3)
        (net.line session.line) (Or.inr (by omega))
      by_cases hlt : session.line < net.lines.length
      · rw [if_pos ⟨rfl, hlt⟩]
        exact hrests
      · -- nobody is at the other end of a line that is not there, and there is room
        rw [if_neg (fun hthere => hlt hthere.2)]
        have hreads : (net.line session.line).paused = none := by
          rw [Net.line, List.getElem?_eq_none (Nat.le_of_not_lt hlt)]
          rfl
        refine hrests.imp_right fun hlater => hlater.imp_right fun hblocked => ?_
        refine Session.isBlocked_mono hblocked fun size hfull => ?_
        rw [Line.hasRoom, Session.drain_carried (P := fun line => line.paused = none)
          (fun _ bytes hopen => Line.paused_carry hopen bytes) _ _ session hreads] at hfull
        exact Bool.noConfusion hfull

end Peer

namespace World

theorem older_write {peers : List Peer} {first : Nat} (holder : ∀ peer ∈ peers, peer.Older first)
    (net : Net) : (∀ entry ∈ answers (write.go peers net).2.2, entry.1 < first) ∧
      ∀ peer ∈ (write.go peers net).1, peer.Older first := by
  induction peers generalizing net with
  | nil => exact ⟨List.forall_mem_nil _, List.forall_mem_nil _⟩
  | cons peer rest ih =>
      obtain ⟨hnow, hkept⟩ := (holder peer List.mem_cons_self).write net
      obtain ⟨hlater, hrest⟩ :=
        ih (fun other hother => holder other (List.mem_cons_of_mem peer hother))
          (peer.write net).2.1
      rw [write.go]
      dsimp only
      rw [answers_append, List.forall_mem_append, List.forall_mem_cons]
      exact ⟨⟨hnow, hlater⟩, hkept, hrest⟩

theorem drawn_write {world : World} (hdrawn : world.pool.Drawn) : world.write.pool.Drawn := by
  obtain ⟨hanswers, hqueued⟩ := older_write hdrawn.queued world.net
  exact ⟨hqueued, List.forall_mem_append.2 ⟨hdrawn.judged, hanswers⟩⟩

theorem hasRoom_write (peers : List Peer) {net : Net} {n needed : Nat}
    (hfull : (net.line n).hasRoom needed = false) :
    ((write.go peers net).2.1.line n).hasRoom needed = false := by
  induction peers generalizing net with
  | nil => exact hfull
  | cons peer rest ih => exact ih (peer.hasRoom_write hfull)

/-- All members have written what they could. -/
theorem hasRested_write (peers : List Peer) (net : Net) :
    ∀ peer ∈ (write.go peers net).1, peer.HasRested (write.go peers net).2.1 := by
  induction peers generalizing net with
  | nil => exact List.forall_mem_nil _
  | cons peer rest ih =>
      refine List.forall_mem_cons.2 ⟨fun session hsession => ?_, ih _⟩
      refine (peer.hasRested_write net session hsession).imp_right fun hrests =>
        hrests.imp_right fun hblocked => ?_
      exact Session.isBlocked_mono hblocked fun size hfull => hasRoom_write rest hfull

end World

end Overlay
