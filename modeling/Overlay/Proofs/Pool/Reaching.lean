import Overlay.Proofs.Pool.Writing

/-!
# What a broadcast reaches

`World.broadcastAndWait` hands out the copies, writes on every member as far as
its line allows, and counts the copies with a good verdict.  A caller that
waits can come to the same: the writers go on one after the other, the caller
looks at all verdicts, and time runs out only if a copy is left, which then
waits on a line without room.  The tickets of the pool are again those that
were drawn, so the next message may follow.
-/

namespace Overlay

open Wire

/-! ## What a session writes -/

/-- The verdicts of tickets from a number on. -/
def Wire.newer (first : Nat) (entries : List (Nat × Except NetError Unit)) :
    List (Nat × Except NetError Unit) :=
  entries.filter (first ≤ ·.1)

theorem Wire.newer_append (first : Nat) (entries more : List (Nat × Except NetError Unit)) :
    newer first (entries ++ more) = newer first entries ++ newer first more :=
  List.filter_append ..

namespace BroadcastWait

variable {wait : BroadcastWait} {front rest : List (Nat × Outbox)} {first ticket : Nat}

theorem Run.trans {before next : BroadcastWait} (hrun : Run before wait) (hmore : Run wait next) :
    Run before next := by
  induction hmore with
  | refl => exact hrun
  | step hmore hstep ih => exact ih.step hstep

/-- Nobody goes on. -/
theorem run_hear_nil {writers : List (Nat × Outbox)} (hwriters : wait.writers = writers) :
    Run wait (wait.hear writers []) := by
  have hsame : wait.hear writers [] = wait := by simp [hear, ← hwriters]
  rw [hsame]
  exact .refl

theorem hear_hear (wait : BroadcastWait) (writers later : List (Nat × Outbox))
    (answers more : List (Nat × Except NetError Unit)) :
    (wait.hear writers answers).hear later more = wait.hear later (answers ++ more) := by
  simp [hear]

section Writing

variable {outbox : Outbox} {size : Nat} {sink : Sink} {step : Outbox.Step}

/-- What a step leaves in a queue was there before. -/
theorem mem_tickets_of_step (hstep : outbox.step? size sink = some step) {other : Nat}
    (hother : other ∈ tickets step.outbox.queue) : other ∈ tickets outbox.queue := by
  have hcount := count_step hstep other
  have hpositive := List.count_pos_iff.2 hother
  exact List.count_pos_iff.1 (by omega)

/-- If only one message in a queue has a new ticket, what a step says of new tickets is what it says
of that one. -/
theorem newer_answers_step (hstep : outbox.step? size sink = some step) (hfirst : first ≤ ticket)
    (hown : ∀ other ∈ tickets outbox.queue, first ≤ other → other = ticket) :
    newer first (answers step.verdict.toList) = step.answers ticket := by
  refine List.filter_congr fun entry hentry => ?_
  rcases step_cases hstep with ⟨verdict, hverdict, hqueue⟩ | ⟨hverdict, -⟩
  · have hmem := mem_tickets_of_answers hentry
    rw [hverdict] at hmem
    have hticket : entry.1 ∈ tickets outbox.queue := by
      rw [hqueue]
      exact (List.Sublist.filterMap _ ((List.nil_sublist _).cons_cons _)).subset hmem
    refine decide_eq_decide.2 ⟨hown _ hticket, fun hsame => ?_⟩
    rw [hsame]
    exact hfirst
  · rw [hverdict] at hentry
    exact absurd hentry List.not_mem_nil

end Writing

/-- What a session writes at once, its writer may write while a caller waits. -/
theorem run_drain (size fuel : Nat) (session : Session) (line : Line)
    (hwriters : wait.writers = front ++ (ticket, session.outbox) :: rest)
    (hfirst : first ≤ ticket)
    (hown : ∀ other ∈ tickets session.outbox.queue, first ≤ other → other = ticket) :
    Run wait (wait.hear
      (front ++ (ticket, (session.drain size fuel line).1.outbox) :: rest)
      (newer first (answers (session.drain size fuel line).2.2))) := by
  induction fuel generalizing wait session line with
  | zero => exact run_hear_nil hwriters
  | succ fuel ih =>
      rcases session.drain_cases size fuel line with
        ⟨hwaits, -⟩ | ⟨step, next, hstep, -, houtbox, hdrain⟩
      · rw [hwaits]
        exact run_hear_nil hwriters
      · have hleft : ∀ other ∈ tickets next.outbox.queue, first ≤ other → other = ticket := by
          rw [houtbox]
          exact fun other hother => hown other (mem_tickets_of_step hstep hother)
        have hrun := @ih (wait.hear (front ++ (ticket, step.outbox) :: rest)
          (step.answers ticket)) next (line.carry step.taken) (by rw [houtbox]; rfl) hleft
        rw [hear_hear] at hrun
        rw [hdrain, answers_append, newer_append, newer_answers_step hstep hfirst hown]
        exact (Run.refl.step (.write hwriters hstep)).trans hrun

/-- What a world writes at once on its members, their writers may write while a caller waits, and
they end with the queues of the members.  Only members with a copy have a message of a ticket that
is not older. -/
theorem run_write {peers : List Peer} (net : Net)
    (hwriters : wait.writers = front ++
      (List.range' ticket (peers.countP (·.outbox?.isSome))).zip (peers.filterMap (·.outbox?)))
    (hfirst : first ≤ ticket)
    (hown : ∀ writer ∈ (List.range' ticket (peers.countP (·.outbox?.isSome))).zip
      (peers.filterMap (·.outbox?)), ∀ other ∈ tickets writer.2.queue, first ≤ other →
        other = writer.1)
    (hothers : ∀ peer ∈ peers, peer.outbox? = none → peer.Older first) :
    ∃ writers, Run wait
        (wait.hear writers (newer first (answers (World.write.go peers net).2.2))) ∧
      ∀ writer ∈ writers, writer ∈ front ∨ ∃ peer ∈ (World.write.go peers net).1,
        ∃ session, peer.session = some session ∧ session.outbox = writer.2 := by
  induction peers generalizing wait front ticket net with
  | nil =>
      refine ⟨_, run_hear_nil rfl, fun writer hwriter => Or.inl ?_⟩
      rw [hwriters] at hwriter
      simpa using hwriter
  | cons peer rest ih =>
      have hlater := fun other hother => hothers other (List.mem_cons_of_mem peer hother)
      rw [World.write.go]
      dsimp only
      rw [answers_append, newer_append]
      cases houtbox : peer.outbox? with
      | none =>
          have hsilent : newer first (answers (peer.write net).2.2) = [] := by
            refine List.filter_eq_nil_iff.2 fun entry hentry => ?_
            have hold := ((hothers peer List.mem_cons_self houtbox).write net).1 entry hentry
            simpa using hold
          rw [List.filterMap_cons_none houtbox, List.countP_cons_of_neg (by simp [houtbox])]
            at hwriters hown
          obtain ⟨writers, hrun, hends⟩ := ih (peer.write net).2.1 hwriters hfirst hown hlater
          rw [hsilent, List.nil_append]
          refine ⟨writers, hrun, fun writer hwriter => (hends writer hwriter).imp_right ?_⟩
          rintro ⟨other, hother, hsession⟩
          exact ⟨other, List.mem_cons_of_mem _ hother, hsession⟩
      | some outbox =>
          rw [List.filterMap_cons_some houtbox, List.countP_cons_of_pos (by simp [houtbox]),
            List.range'_succ, List.zip_cons_cons] at hwriters hown
          obtain ⟨-, session, hsession, rfl, -⟩ := Peer.outbox?_eq_some_iff.1 houtbox
          let drained := session.drain peer.policy.chunkSize (session.outbox.queue.length + 3)
            (net.line session.line)
          have hdrain := run_drain peer.policy.chunkSize (session.outbox.queue.length + 3) session
            (net.line session.line) hwriters hfirst (hown _ List.mem_cons_self)
          obtain ⟨writers, hrun, hends⟩ := @ih
            (wait.hear _ (newer first (answers drained.2.2)))
            (front ++ [(ticket, drained.1.outbox)]) (ticket + 1) (peer.write net).2.1
            (List.append_cons ..) (Nat.le_succ_of_le hfirst)
            (fun writer hwriter => hown writer (List.mem_cons_of_mem _ hwriter)) hlater
          rw [hear_hear] at hrun
          have hwritten : (peer.write net).1.session = some drained.1 := by
            rw [Peer.write, hsession]
          refine ⟨writers, ?_, fun writer hwriter => ?_⟩
          · rw [Peer.write, hsession] at hrun ⊢
            exact hdrain.trans hrun
          · rcases hends writer hwriter with hbefore | ⟨other, hother, hsame⟩
            · rcases List.mem_append.1 hbefore with hfront | hhere
              · exact Or.inl hfront
              · rw [List.mem_singleton.1 hhere]
                exact Or.inr ⟨_, List.mem_cons_self, _, hwritten, rfl⟩
            · exact Or.inr ⟨other, List.mem_cons_of_mem _ hother, hsame⟩

/-- The caller looks at all verdicts that have come. -/
theorem Sound.exists_run_receive {drawn : List Nat} (hsound : Sound drawn wait)
    (hforsaken : wait.forsaken = false) (htime : wait.expired = false) :
    ∃ last, Run wait last ∧ last.arrived = [] ∧ last.told = wait.told ∧
      last.writers = wait.writers ∧ last.forsaken = false ∧ last.expired = false := by
  induction harrived : wait.arrived generalizing wait with
  | nil => exact ⟨wait, .refl, harrived, rfl, rfl, hforsaken, htime⟩
  | cons result rest ih =>
      obtain ⟨seen, htold, -, hawaited⟩ := hsound.seen
      have hlength := congrArg List.length htold
      have hbound := hsound.length_told_le
      rw [List.length_map, List.length_append, harrived, List.length_cons] at hlength
      obtain ⟨awaited, hone⟩ := Nat.exists_eq_succ_of_ne_zero (n := wait.awaited) (by omega)
      have hwaits : ¬ wait.IsOver := by
        rintro (hnone | hgone | hexpired)
        · omega
        · exact absurd (hforsaken.symm.trans hgone) nofun
        · exact absurd (htime.symm.trans hexpired) nofun
      have hstep := Step.receive hwaits hone harrived
      obtain ⟨last, hrun, hlast⟩ := ih (hsound.step hstep) hforsaken htime rfl
      exact ⟨last, (Run.refl.step hstep).trans hrun, hlast⟩

end BroadcastWait

/-! ## The tickets of a pool -/

namespace Peer

variable {peer : Peer} {first later : Nat}

theorem Older.mono (holder : peer.Older first) (hle : first ≤ later) : peer.Older later :=
  fun session hsession ticket hticket =>
    Nat.lt_of_lt_of_le (holder session hsession ticket hticket) hle

theorem Older.handed (holder : peer.Older first) {job : Job}
    (hjob : ∀ ticket ∈ job.ticket, ticket < first) : (peer.handed job).Older first := by
  cases houtbox : peer.outbox? with
  | none => rwa [handed_of_none houtbox]
  | some outbox =>
      obtain ⟨-, session, hsession, rfl, -⟩ := outbox?_eq_some_iff.1 houtbox
      intro after hafter ticket hticket
      rw [Peer.handed, houtbox, hsession] at hafter
      obtain rfl := Option.some.inj hafter
      rw [Writing.tickets_append, List.mem_append] at hticket
      rcases hticket with hold | hnew
      · exact holder session hsession ticket hold
      · exact hjob ticket (by simpa [tickets] using hnew)

end Peer

theorem older_handedOut (message : Message) {ticket first : Nat} {members : List Peer}
    (holder : ∀ peer ∈ members, peer.Older first)
    (hfirst : ticket + members.countP (·.outbox?.isSome) ≤ first) :
    ∀ peer ∈ handedOut message ticket members, peer.Older first := by
  induction members generalizing ticket with
  | nil => exact List.forall_mem_nil _
  | cons peer rest ih =>
      have hlater := fun other hother => holder other (List.mem_cons_of_mem peer hother)
      rw [handedOut, List.forall_mem_cons]
      cases houtbox : peer.outbox? with
      | none =>
          rw [List.countP_cons_of_neg (by simp [houtbox])] at hfirst
          rw [Peer.handed_of_none houtbox]
          exact ⟨holder peer List.mem_cons_self, ih hlater hfirst⟩
      | some outbox =>
          rw [List.countP_cons_of_pos (by simp [houtbox])] at hfirst
          refine ⟨(holder peer List.mem_cons_self).handed fun other hother => ?_, ih hlater ?_⟩
          · obtain rfl := Option.some.inj hother
            omega
          · rw [Option.isSome_some, if_pos rfl]
            omega

theorem Pool.Drawn.broadcast {pool : Pool} (hdrawn : pool.Drawn)
    (hids : (pool.members.map (·.id)).Nodup) (message : Message) :
    (pool.broadcast message).2.Drawn := by
  rw [Pool.broadcast_eq hids]
  refine ⟨List.forall_mem_map.2 fun peer hpeer => ?_, hdrawn.judged⟩
  exact (hdrawn.queued peer hpeer).handed fun ticket hticket => absurd hticket nofun

theorem Pool.Drawn.broadcastTicketed {pool : Pool} (hdrawn : pool.Drawn)
    (hids : (pool.members.map (·.id)).Nodup) (message : Message) :
    (pool.broadcastTicketed message).2.Drawn := by
  rw [Pool.broadcastTicketed_eq hids]
  have hmore : pool.tickets ≤ pool.tickets + pool.takers := Nat.le_add_right ..
  refine ⟨older_handedOut message (fun peer hpeer => ?_) (Nat.le_refl _), fun entry hentry => ?_⟩
  · exact (hdrawn.queued peer hpeer).mono hmore
  · exact Nat.lt_of_lt_of_le (hdrawn.judged entry hentry) hmore

namespace World

/-- Whoever has waited for the verdicts on a message for all may send another one. -/
theorem drawn_broadcastAndWait {world : World} (hdrawn : world.pool.Drawn)
    (hids : (world.pool.members.map (·.id)).Nodup) (message : Message) :
    (world.broadcastAndWait message).2.pool.Drawn :=
  @drawn_write { world with pool := (world.pool.broadcastTicketed message).2 }
    (hdrawn.broadcastTicketed hids message)

end World

theorem Pool.drawn_empty (policy : PoolPolicy) (localKey : Bytes) (store : Option PeerStore) :
    (Pool.empty policy localKey store).Drawn :=
  ⟨List.forall_mem_nil _, List.forall_mem_nil _⟩

/-! ## What a world counts -/

/-- Older verdicts say nothing about a new ticket. -/
theorem lookup_newer {first ticket : Nat} (hfirst : first ≤ ticket)
    {old : List (Nat × Except NetError Unit)} (hold : ∀ entry ∈ old, entry.1 < first)
    (entries : List (Nat × Except NetError Unit)) :
    (old ++ entries).lookup ticket = (newer first entries).lookup ticket := by
  have hnone : old.lookup ticket = none := by
    refine List.lookup_eq_none_iff.2 fun entry hentry => ?_
    have hless := hold entry hentry
    simp only [bne_iff_ne, ne_eq]
    omega
  rw [List.lookup_append, hnone, Option.none_or, newer]
  induction entries with
  | nil => rfl
  | cons entry rest ih =>
      by_cases hnew : first ≤ entry.1
      · rw [List.filter_cons_of_pos (by simpa using hnew), List.lookup_cons, List.lookup_cons, ih]
      · have hother : (ticket == entry.1) = false := by
          simp only [beq_eq_false_iff_ne]
          omega
        rw [List.filter_cons_of_neg (by simpa using hnew), List.lookup_cons, hother, ih]

/-- A verdict that is found is the only one of its ticket. -/
theorem lookup_isOk {told : List (Nat × Except NetError Unit)} (hnodup : (told.map (·.1)).Nodup)
    (ticket : Nat) :
    (match told.lookup ticket with
      | some (.ok ()) => true
      | _ => false) = told.any fun entry => entry.1 = ticket && entry.2.isOk := by
  induction told with
  | nil => rfl
  | cons entry rest ih =>
      rw [List.map_cons, List.nodup_cons] at hnodup
      rw [List.lookup_cons, List.any_cons]
      by_cases hsame : ticket = entry.1
      · have hrest : (rest.any fun entry => entry.1 = ticket && entry.2.isOk) = false := by
          refine List.any_eq_false.2 fun other hother => ?_
          have hne : other.1 ≠ ticket := fun heq =>
            hnodup.1 (hsame ▸ heq ▸ List.mem_map_of_mem hother)
          simp [hne]
        rw [hrest]
        obtain ⟨key, result⟩ := entry
        cases result with
        | ok => simp [hsame, Except.isOk, Except.toBool]
        | error cause => simp [hsame, Except.isOk, Except.toBool]
      · have hother : (ticket == entry.1) = false := by simpa using hsame
        have hne : ¬ entry.1 = ticket := fun heq => hsame heq.symm
        simp only [hother, ih hnodup.2, hne, decide_false, Bool.false_and, Bool.false_or]

/-- Whether the message of a ticket was written. -/
def Pool.confirms (pool : Pool) (ticket : Nat) : Bool :=
  match pool.verdict? ticket with
  | some (.ok ()) => true
  | _ => false

/-- What a call comes to that sends a message to all members and waits: how many copies it counts,
and the world that it leaves. -/
structure World.Reaches (world : World) (message : Message) (reached : Nat) (after : World) :
    Prop where
  /-- The copies are handed out, and then every member writes. -/
  after_eq : after = { world with pool := (world.pool.broadcastTicketed message).2 }.write
  /-- The members are the same, in the same states and on the same lines. -/
  gists : after.pool.gists = world.pool.gists
  /-- Every member has written what it could. -/
  rested : ∀ peer ∈ after.pool.members, peer.HasRested after.net
  /-- The copies that were written are counted. -/
  counted : reached = (List.range' world.pool.tickets world.pool.takers).countP after.pool.confirms
  /-- A caller that waits can come to the same: it has stopped, and it knows of the same copies that
  they were written.  Time has run out for it only if a copy waits on a line without room. -/
  waited : ∃ wait, BroadcastWait.Run (.start (world.pool.broadcastTicketed message)) wait ∧
    wait.IsOver ∧ reached = wait.reached ∧
    (∀ ticket ∈ List.range' world.pool.tickets world.pool.takers,
      wait.confirms ticket = after.pool.confirms ticket) ∧
    (wait.expired = true → ∃ peer ∈ after.pool.members, ∃ session, peer.session = some session ∧
      session.isBlocked (after.net.line session.line) = true ∧
      ∃ ticket ∈ List.range' world.pool.tickets world.pool.takers,
        ticket ∈ tickets session.outbox.queue)

/-- A copy that waits when all members have written waits on a line without room. -/
theorem BroadcastWait.Sound.exists_blocked {drawn : List Nat} {wait : BroadcastWait}
    (hsound : Sound drawn wait)
    {peers : List Peer} {net : Net} (hrested : ∀ peer ∈ peers, peer.HasRested net)
    (hends : ∀ writer ∈ wait.writers, ∃ peer ∈ peers, ∃ session, peer.session = some session ∧
      session.outbox = writer.2)
    (hwaits : ∃ writer ∈ wait.writers, writer.1 ∈ tickets writer.2.queue) :
    ∃ peer ∈ peers, ∃ session, peer.session = some session ∧
      session.isBlocked (net.line session.line) = true ∧
      ∃ ticket ∈ drawn, ticket ∈ tickets session.outbox.queue := by
  obtain ⟨writer, hwriter, hcopy⟩ := hwaits
  obtain ⟨peer, hpeer, session, hsession, houtbox⟩ := hends writer hwriter
  have hqueue : writer.2.queue ≠ [] := by
    rintro hempty
    rw [hempty] at hcopy
    exact absurd hcopy List.not_mem_nil
  have hticket : writer.1 ∈ drawn := by
    rw [← hsound.handed]
    exact List.mem_map_of_mem hwriter
  refine ⟨peer, hpeer, session, hsession, ?_, writer.1, hticket, by rwa [houtbox]⟩
  have hrests := hrested peer hpeer session hsession
  rw [houtbox] at hrests
  exact (hrests.resolve_left hqueue).resolve_left fun hended =>
    hqueue (hsound.ended writer hwriter hended)

namespace World

variable {world : World}

/-- The members, the lines and the verdicts when all members have written that were handed their
copies. -/
def written (world : World) (message : Message) : List Peer × Net × List Verdict :=
  write.go (handedOut message world.pool.tickets world.pool.members) world.net

/-- The world that is left has the members and the lines of the writing, and knows its verdicts. -/
theorem broadcastAndWait_snd (hids : (world.pool.members.map (·.id)).Nodup) (message : Message) :
    (world.broadcastAndWait message).2.pool.members = (world.written message).1 ∧
      (world.broadcastAndWait message).2.net = (world.written message).2.1 ∧
      (world.broadcastAndWait message).2.pool.verdicts =
        world.pool.verdicts ++ answers (world.written message).2.2 := by
  rw [broadcastAndWait, Pool.broadcastTicketed_eq hids]
  exact ⟨rfl, rfl, rfl⟩

/-- The writing is one way in which the writers can go on while the caller waits. -/
theorem exists_run_written (hids : (world.pool.members.map (·.id)).Nodup)
    (hdrawn : world.pool.Drawn) (message : Message) :
    ∃ writers, BroadcastWait.Run (.start (world.pool.broadcastTicketed message))
        ((BroadcastWait.start (world.pool.broadcastTicketed message)).hear writers
          (newer world.pool.tickets (answers (world.written message).2.2))) ∧
      ∀ writer ∈ writers, ∃ peer ∈ (world.written message).1,
        ∃ session, peer.session = some session ∧ session.outbox = writer.2 := by
  have hsent := Pool.broadcastTicketed_eq hids message
  obtain ⟨writers, hrun, hends⟩ := @BroadcastWait.run_write
    (.start (world.pool.broadcastTicketed message)) [] world.pool.tickets world.pool.tickets
    (handedOut message world.pool.tickets world.pool.members) world.net
    (by rw [hsent, countP_handedOut]; rfl) (Nat.le_refl _)
    (fun writer hwriter other hother hnew => by
      obtain ⟨peer, hmember, outbox, houtbox, hcopy⟩ := zip_outboxes_handedOut hwriter
      obtain ⟨-, session, hsession, rfl, -⟩ := Peer.outbox?_eq_some_iff.1 houtbox
      rw [hcopy, Writing.tickets_append, List.mem_append] at hother
      rcases hother with hold | hown
      · exact absurd (hdrawn.queued peer hmember session hsession other hold) (Nat.not_lt.2 hnew)
      · exact List.mem_singleton.1 hown)
    (fun peer hpeer hnone => by
      obtain ⟨before, hmember, job, rfl⟩ := mem_handedOut hpeer
      rw [Peer.outbox?_handed, Option.map_eq_none_iff] at hnone
      rw [Peer.handed_of_none hnone]
      exact hdrawn.queued before hmember)
  exact ⟨writers, hrun, fun writer hwriter =>
    (hends writer hwriter).resolve_left List.not_mem_nil⟩

/-- A caller that was told of new verdicts knows what the pool knows of new tickets. -/
theorem confirms_of_told {drawn : List Nat} {wait : BroadcastWait} (hsound : wait.Sound drawn)
    {pool : Pool} {first : Nat} {old entries : List (Nat × Except NetError Unit)}
    (hold : ∀ entry ∈ old, entry.1 < first) (hverdicts : pool.verdicts = old ++ entries)
    (htold : wait.told = newer first entries) {ticket : Nat} (hnew : first ≤ ticket) :
    wait.confirms ticket = pool.confirms ticket := by
  rw [Pool.confirms, Pool.verdict?, hverdicts, lookup_newer hnew hold entries, ← htold]
  exact (lookup_isOk hsound.nodup_told ticket).symm

theorem reaches_broadcastAndWait (hids : (world.pool.members.map (·.id)).Nodup)
    (hdrawn : world.pool.Drawn) (message : Message) :
    world.Reaches message (world.broadcastAndWait message).1
      (world.broadcastAndWait message).2 := by
  obtain ⟨hmembers, hnet, hverdicts⟩ := broadcastAndWait_snd hids message
  have hcounted : (world.broadcastAndWait message).1 =
      (List.range' world.pool.tickets world.pool.takers).countP
        (world.broadcastAndWait message).2.pool.confirms := by
    rw [broadcastAndWait, Pool.broadcastTicketed_eq hids]
    rfl
  have hrested : ∀ peer ∈ (world.broadcastAndWait message).2.pool.members,
      peer.HasRested (world.broadcastAndWait message).2.net := by
    rw [hmembers, hnet]
    exact hasRested_write _ _
  refine ⟨rfl, ?_, hrested, hcounted, ?_⟩
  · rw [Pool.gists, hmembers]
    exact (map_gist_write _ _).trans (map_gist_handedOut _ _ _)
  -- the members write one after the other, and then the caller looks at what they have told
  obtain ⟨writers, hwritten, hends⟩ := exists_run_written hids hdrawn message
  have hsound := hwritten.sound (BroadcastWait.sound_start hids hdrawn message)
  obtain ⟨seen, hreceived, harrived, htold, hwriters, -, htime⟩ := hsound.exists_run_receive rfl rfl
  have hseen := hreceived.sound hsound
  have hrun := hwritten.trans hreceived
  have hconfirms : ∀ ticket ∈ List.range' world.pool.tickets world.pool.takers,
      seen.confirms ticket = (world.broadcastAndWait message).2.pool.confirms ticket :=
    fun ticket hticket => confirms_of_told hseen hdrawn.judged hverdicts htold
      (List.mem_range'_1.1 hticket).1
  have hreached : (world.broadcastAndWait message).1 = seen.reached := by
    rw [hseen.reached_of_arrived harrived, hcounted]
    exact (List.countP_congr fun ticket hticket => by rw [hconfirms ticket hticket]).symm
  by_cases hover : seen.IsOver
  · refine ⟨seen, hrun, hover, hreached, hconfirms, fun hexpired => ?_⟩
    exact absurd (htime.symm.trans hexpired) Bool.false_ne_true
  by_cases hgone : ∀ writer ∈ seen.writers, writer.1 ∉ tickets writer.2.queue
  · refine ⟨_, hrun.step (.forsake hover harrived hgone), Or.inr (Or.inl rfl), hreached, hconfirms,
      fun hexpired => ?_⟩
    exact absurd (htime.symm.trans hexpired) Bool.false_ne_true
  · push Not at hgone
    refine ⟨_, hrun.step (.expire hover harrived), Or.inr (Or.inr rfl), hreached, hconfirms,
      fun _ => hseen.exists_blocked hrested ?_ hgone⟩
    rw [hwriters, hmembers]
    exact hends

end World

/-- **A message for all is queued once on every member that takes messages, and nothing else
changes.**  The call says whether there are members.  With tickets the same is queued, and whoever
waits for the verdicts stops in time with the number of copies that were written, unless time runs
out: as long as they wait, somebody goes on.  A world hands out the copies, lets its members write
what they can, and counts the copies that were written.  That is what such a caller comes to, for
whom time runs out only if a copy waits on a line without room. -/
theorem World.broadcast_isolates {world : World} (hids : (world.pool.members.map (·.id)).Nodup)
    (hdrawn : world.pool.Drawn) (message : Message) :
    world.pool.broadcast message = (decide (world.pool.members ≠ []),
        { world.pool with
          members := world.pool.members.map fun peer => peer.handed { message } }) ∧
      world.pool.broadcastTicketed message =
        (List.range' world.pool.tickets world.pool.takers,
          { world.pool with
            members := handedOut message world.pool.tickets world.pool.members
            tickets := world.pool.tickets + world.pool.takers }) ∧
      (∀ wait, BroadcastWait.Run (.start (world.pool.broadcastTicketed message)) wait →
        (¬ wait.IsOver → ∃ next, BroadcastWait.Step wait next ∧ next.expired = false) ∧
        (wait.IsOver → wait.expired = false →
          wait.reached =
            (List.range' world.pool.tickets world.pool.takers).countP wait.confirms)) ∧
      world.Reaches message (world.broadcastAndWait message).1
        (world.broadcastAndWait message).2 ∧
      (world.pool.members = [] → (world.broadcastAndWait message).1 = 0) := by
  have hstart := BroadcastWait.sound_start hids hdrawn message
  refine ⟨Pool.broadcast_eq hids message, Pool.broadcastTicketed_eq hids message,
    fun wait hrun => ?_, World.reaches_broadcastAndWait hids hdrawn message, fun hempty => ?_⟩
  · have hsound := hrun.sound hstart
    exact ⟨hsound.exists_step, fun hover htime =>
      hsound.reached_of_arrived (hsound.arrived_of_isOver hover htime)⟩
  · rw [World.broadcastAndWait, Pool.broadcastTicketed, hempty]
    rfl

/-- A member that dialed in, where it stands and what it holds. -/
def standing (id : Nat) (state : PeerState) (session : Option Session) : Peer where
  id
  identity := ⟨[UInt8.ofNat id], 1, 1⟩
  endpoint := ⟨"h", UInt16.ofNat id⟩
  direction := .inbound
  state
  session

/-- The first member has a message waiting for a line that takes nothing, the writer of the second
has stopped, the third waits for a line, the fourth has left, and the fifth is well. -/
def patchy : World where
  pool.members := [
    standing 1 .connected (some {
      line := 0
      outbox.queue := [{ message := disconnectMessage, ticket := some 0 }] }),
    standing 2 .connected (some { line := 1, outbox := { phase := .ended } }),
    standing 3 .reconnecting none,
    standing 4 .disconnected none,
    standing 5 .connected (some { line := 1 })]
  pool.tickets := 1
  net.lines := [{ stalled := true }, {}]

theorem drawn_patchy : patchy.pool.Drawn where
  queued := by decide
  judged := nofun

/-- The first and the last member get copies, and one of these is written.  Nothing waits any more,
so no time has run out. -/
theorem World.broadcast_isolates_patchy :
    (patchy.pool.members.map (·.id)).Nodup ∧ patchy.pool.Drawn ∧
      (patchy.pool.broadcast disconnectMessage).1 = true ∧
      (patchy.pool.broadcast disconnectMessage).2.members.map
        (fun peer => peer.session.map (·.outbox.queue.length)) =
          [some 2, some 0, none, none, some 1] ∧
      (patchy.pool.broadcastTicketed disconnectMessage).1 = [1, 2] ∧
      (∀ wait, BroadcastWait.Run (.start (patchy.pool.broadcastTicketed disconnectMessage)) wait →
        wait.IsOver → wait.expired = false → wait.reached = [1, 2].countP wait.confirms) ∧
      (patchy.broadcastAndWait disconnectMessage).1 = 1 ∧
      (patchy.broadcastAndWait disconnectMessage).2.pool.members.map
        (fun peer => peer.session.map (·.outbox.queue.length)) =
          [some 0, some 0, none, none, some 0] ∧
      ∃ wait, BroadcastWait.Run (.start (patchy.pool.broadcastTicketed disconnectMessage)) wait ∧
        wait.IsOver ∧ wait.expired = false ∧ wait.reached = 1 := by
  have hids : (patchy.pool.members.map (·.id)).Nodup := by decide
  obtain ⟨hbroadcast, hticketed, hcounted, hreaches, -⟩ :=
    World.broadcast_isolates hids drawn_patchy disconnectMessage
  have hqueues : (patchy.broadcastAndWait disconnectMessage).2.pool.members.map
      (fun peer => peer.session.map (·.outbox.queue.length)) =
        [some 0, some 0, none, none, some 0] := rfl
  have hreached : (patchy.broadcastAndWait disconnectMessage).1 = 1 := rfl
  obtain ⟨wait, hrun, hover, hsame, -, hexpires⟩ := hreaches.waited
  refine ⟨hids, drawn_patchy, by rw [hbroadcast]; rfl, by rw [hbroadcast]; rfl,
    by rw [hticketed]; rfl, fun wait hrun hover htime => ?_, hreached, hqueues, wait, hrun, hover,
    ?_, hsame.symm.trans hreached⟩
  · exact (hcounted wait hrun).2 hover htime
  · refine Bool.eq_false_iff.2 fun hexpired => ?_
    obtain ⟨peer, hpeer, session, hsession, -, ticket, -, hwaits⟩ := hexpires hexpired
    have hlength := List.mem_map_of_mem (f := fun peer : Peer =>
      peer.session.map (·.outbox.queue.length)) hpeer
    rw [hqueues, hsession] at hlength
    have hempty : session.outbox.queue = [] := by simpa using hlength
    rw [hempty] at hwaits
    exact List.not_mem_nil hwaits

end Overlay
