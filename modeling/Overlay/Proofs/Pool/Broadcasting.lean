import Overlay.Proofs.Pool.Membership

/-!
# Messages for all members

A message for all is queued once on every member that takes messages, behind
what was queued before, and nothing else changes.  A member takes messages if
it is connected and its writer has not stopped; one that does not is passed
over.  A caller that asks for the verdicts has a ticket on every copy.
-/

namespace Overlay

open Wire

namespace Peer

/-- The queue of a peer that takes messages: it is connected, and its writer has not stopped. -/
def outbox? (peer : Peer) : Option Outbox :=
  if peer.state = .connected then
    (peer.session.map (·.outbox)).filter (·.phase ≠ .ended)
  else none

/-- A peer to which a message was handed.  If it takes messages, the message is the last of its
queue. -/
def handed (peer : Peer) (job : Job) : Peer :=
  match peer.outbox? with
  | none => peer
  | some outbox =>
    { peer with session := peer.session.map fun session =>
        { session with outbox := { outbox with queue := outbox.queue ++ [job] } } }

variable {peer : Peer} {outbox : Outbox}

theorem outbox?_eq_some_iff : peer.outbox? = some outbox ↔
    peer.state = .connected ∧ ∃ session, peer.session = some session ∧ session.outbox = outbox ∧
      outbox.phase ≠ .ended := by
  rw [outbox?]
  split_ifs with hstate
  · cases hsession : peer.session with
    | none => simp
    | some session =>
        simp only [Option.map_some, Option.filter_eq_some_iff, hstate, true_and, Option.some.injEq,
          exists_eq_left', decide_eq_true_eq]
  · simp [hstate]

theorem handed_of_none (hnone : peer.outbox? = none) (job : Job) : peer.handed job = peer := by
  rw [handed, hnone]

@[simp] theorem handed_id (peer : Peer) (job : Job) : (peer.handed job).id = peer.id := by
  rw [handed]
  split <;> rfl

@[simp] theorem gist_handed (peer : Peer) (job : Job) : (peer.handed job).gist = peer.gist := by
  rw [handed]
  split
  · rfl
  · cases hsession : peer.session <;> simp [gist, card, hsession]

/-- A message that is handed over is the last of a queue. -/
theorem outbox?_handed (peer : Peer) (job : Job) : (peer.handed job).outbox? =
    peer.outbox?.map fun outbox => { outbox with queue := outbox.queue ++ [job] } := by
  cases houtbox : peer.outbox? with
  | none => rw [handed_of_none houtbox, houtbox, Option.map_none]
  | some outbox =>
      obtain ⟨hstate, session, hsession, rfl, hphase⟩ := outbox?_eq_some_iff.1 houtbox
      rw [Option.map_some, outbox?_eq_some_iff, handed, houtbox]
      exact ⟨hstate, _, congrArg (Option.map _) hsession, rfl, hphase⟩

/-- A peer that takes messages takes this one. -/
theorem enqueue_of_some (houtbox : peer.outbox? = some outbox) (job : Job) :
    peer.enqueue job = .ok (peer.handed job) := by
  obtain ⟨hstate, session, hsession, rfl, hphase⟩ := outbox?_eq_some_iff.1 houtbox
  simp [enqueue, hstate, hsession, Outbox.enqueue, hphase, handed, houtbox]

/-- Any other peer refuses it. -/
theorem enqueue_of_none (hnone : peer.outbox? = none) (job : Job) :
    ∃ cause, peer.enqueue job = .error cause := by
  rw [enqueue]
  split_ifs with hstate
  · exact ⟨_, rfl⟩
  · rw [not_not] at hstate
    cases hsession : peer.session with
    | none => exact ⟨_, rfl⟩
    | some session =>
        have hphase : session.outbox.phase = .ended := by
          simpa [outbox?, hstate, hsession] using hnone
        simp [Outbox.enqueue, hphase]

end Peer

/-- Members to which copies of a message were handed, with tickets from a number on. -/
def handedOut (message : Message) : Nat → List Peer → List Peer
  | _, [] => []
  | ticket, peer :: rest =>
    peer.handed { message, ticket := some ticket } ::
      handedOut message (if peer.outbox?.isSome then ticket + 1 else ticket) rest

theorem mem_handedOut {message : Message} {ticket : Nat} {members : List Peer} {peer : Peer}
    (hpeer : peer ∈ handedOut message ticket members) :
    ∃ before ∈ members, ∃ job, peer = before.handed job := by
  induction members generalizing ticket with
  | nil => exact absurd hpeer List.not_mem_nil
  | cons before rest ih =>
      rw [handedOut, List.mem_cons] at hpeer
      rcases hpeer with rfl | hlater
      · exact ⟨before, List.mem_cons_self, _, rfl⟩
      · obtain ⟨other, hother, hhanded⟩ := ih hlater
        exact ⟨other, List.mem_cons_of_mem _ hother, hhanded⟩

theorem map_gist_handedOut (message : Message) (ticket : Nat) (members : List Peer) :
    (handedOut message ticket members).map Peer.gist = members.map Peer.gist := by
  induction members generalizing ticket with
  | nil => rfl
  | cons peer rest ih => rw [handedOut, List.map_cons, List.map_cons, Peer.gist_handed, ih]

/-- The queues to which a copy was handed, in order. -/
theorem outboxes_handedOut (message : Message) (ticket : Nat) (members : List Peer) :
    (handedOut message ticket members).filterMap (·.outbox?) =
      ((members.filterMap (·.outbox?)).zipIdx ticket).map fun (outbox, ticket) =>
        { outbox with queue := outbox.queue ++ [{ message, ticket := some ticket }] } := by
  induction members generalizing ticket with
  | nil => rfl
  | cons peer rest ih =>
      have hcopy := peer.outbox?_handed { message, ticket := some ticket }
      cases houtbox : peer.outbox? with
      | none =>
          rw [houtbox, Option.map_none] at hcopy
          rw [handedOut, List.filterMap_cons_none hcopy, List.filterMap_cons_none houtbox, ih]
          simp [houtbox]
      | some outbox =>
          rw [houtbox, Option.map_some] at hcopy
          rw [handedOut, List.filterMap_cons_some hcopy, List.filterMap_cons_some houtbox, ih]
          simp [houtbox]

/-- A member that takes messages goes on taking them. -/
theorem countP_handedOut (message : Message) (ticket : Nat) (members : List Peer) :
    (handedOut message ticket members).countP (·.outbox?.isSome) =
      members.countP (·.outbox?.isSome) := by
  rw [← List.length_filterMap_eq_countP, outboxes_handedOut, List.length_map,
    List.length_zipIdx, List.length_filterMap_eq_countP]

/-- The copy of a ticket is the last of its queue. -/
theorem zip_outboxes_handedOut {message : Message} {ticket : Nat} {members : List Peer}
    {writer : Nat × Outbox} {tickets : Nat} (hwriter : writer ∈ (List.range' ticket tickets).zip
      ((handedOut message ticket members).filterMap (·.outbox?))) :
    ∃ peer ∈ members, ∃ outbox, peer.outbox? = some outbox ∧
      writer.2 = { outbox with
        queue := outbox.queue ++ [{ message, ticket := some writer.1 }] } := by
  rw [outboxes_handedOut] at hwriter
  obtain ⟨place, hplace, rfl⟩ := List.mem_iff_getElem.1 hwriter
  have hbound : place < (members.filterMap (·.outbox?)).length := by
    simp only [List.length_zip, List.length_map, List.length_zipIdx] at hplace
    omega
  obtain ⟨peer, hpeer, houtbox⟩ := List.mem_filterMap.1 (List.getElem_mem hbound)
  exact ⟨peer, hpeer, _, houtbox, by simp⟩

namespace Pool

/-- How many members take messages. -/
def takers (pool : Pool) : Nat :=
  pool.members.countP (·.outbox?.isSome)

variable {pool : Pool} {front rest : List Peer} {peer : Peer} {outbox : Outbox}

/-- A message for a member that takes it changes that member only. -/
theorem send_of_some (hids : (pool.members.map (·.id)).Nodup)
    (hmembers : pool.members = front ++ peer :: rest) (houtbox : peer.outbox? = some outbox)
    (job : Job) :
    pool.send peer job = .ok { pool with members := front ++ peer.handed job :: rest } := by
  rw [send, Peer.enqueue_of_some houtbox, Except.map, Peer.handed_id, change_eq hids hmembers]

theorem send_of_none (hnone : peer.outbox? = none) (pool : Pool) (job : Job) :
    ∃ cause, pool.send peer job = .error cause := by
  obtain ⟨cause, hrefused⟩ := Peer.enqueue_of_none hnone job
  exact ⟨cause, by rw [send, hrefused]; rfl⟩

/-- A loop over the members that hands a message to each of them hands it to all. -/
theorem foldl_handed {step : Pool → Peer → Pool} {job : Job}
    (hstep : ∀ (served : Pool) front peer rest, (served.members.map (·.id)).Nodup →
      served.members = front ++ peer :: rest →
      step served peer = { served with members := front ++ peer.handed job :: rest })
    (rest : List Peer) {served : Pool} (hids : (served.members.map (·.id)).Nodup)
    (hmembers : served.members = front ++ rest) :
    rest.foldl step served =
      { served with members := front ++ rest.map fun peer => peer.handed job } := by
  induction rest generalizing front served with
  | nil => rw [List.foldl_nil, List.map_nil, ← hmembers]
  | cons peer rest ih =>
      rw [List.foldl_cons, hstep served front peer rest hids hmembers]
      rw [@ih (front ++ [peer.handed job]) _ (by simpa [hmembers] using hids) (by simp)]
      simp

theorem broadcast_eq (hids : (pool.members.map (·.id)).Nodup) (message : Message) :
    pool.broadcast message =
      (decide (pool.members ≠ []),
        { pool with members := pool.members.map fun peer => peer.handed { message } }) := by
  refine congrArg (Prod.mk _) (foldl_handed (fun served front peer rest hserved hmembers => ?_)
    pool.members hids (List.nil_append _).symm)
  cases houtbox : peer.outbox? with
  | none =>
      obtain ⟨cause, hrefused⟩ := send_of_none houtbox served { message }
      rw [hrefused, Peer.handed_of_none houtbox, ← hmembers]
  | some outbox => rw [send_of_some hserved hmembers houtbox]

/-- A message with a ticket for a member that takes it draws the ticket and changes that member
only. -/
theorem sendTicketed_of_some (hids : (pool.members.map (·.id)).Nodup)
    (hmembers : pool.members = front ++ peer :: rest) (houtbox : peer.outbox? = some outbox)
    (message : Message) :
    pool.sendTicketed peer message = .ok (pool.tickets, { pool with
      members := front ++ peer.handed { message, ticket := some pool.tickets } :: rest
      tickets := pool.tickets + 1 }) := by
  have hsent := @send_of_some pool.newTicket.2 front rest peer outbox hids hmembers houtbox
    { message, ticket := some pool.tickets }
  simp only [newTicket] at hsent
  simp only [sendTicketed, newTicket, hsent, Except.map]

theorem sendTicketed_of_none (hnone : peer.outbox? = none) (pool : Pool) (message : Message) :
    ∃ cause, pool.sendTicketed peer message = .error cause := by
  obtain ⟨cause, hrefused⟩ :=
    send_of_none hnone pool.newTicket.2 { message, ticket := some pool.tickets }
  simp only [newTicket] at hrefused
  exact ⟨cause, by simp only [sendTicketed, newTicket, hrefused, Except.map]⟩

/-- A loop over the members that hands each of them a copy with a ticket draws a ticket for every
member that takes it. -/
theorem foldl_handedOut {step : List Nat × Pool → Peer → List Nat × Pool} {message : Message}
    (htakes : ∀ drawn (served : Pool) front peer rest outbox, (served.members.map (·.id)).Nodup →
      served.members = front ++ peer :: rest → peer.outbox? = some outbox →
      step (drawn, served) peer = (drawn ++ [served.tickets], { served with
        members := front ++ peer.handed { message, ticket := some served.tickets } :: rest
        tickets := served.tickets + 1 }))
    (hrefuses : ∀ sent peer, peer.outbox? = none → step sent peer = sent)
    (rest : List Peer) {drawn : List Nat} {served : Pool}
    (hids : (served.members.map (·.id)).Nodup) (hmembers : served.members = front ++ rest) :
    rest.foldl step (drawn, served) =
      (drawn ++ List.range' served.tickets (rest.countP (·.outbox?.isSome)),
        { served with
          members := front ++ handedOut message served.tickets rest
          tickets := served.tickets + rest.countP (·.outbox?.isSome) }) := by
  induction rest generalizing front drawn served with
  | nil => simp [handedOut, ← hmembers]
  | cons peer rest ih =>
      rw [List.foldl_cons, handedOut]
      cases houtbox : peer.outbox? with
      | none =>
          rw [hrefuses _ peer houtbox, Peer.handed_of_none houtbox,
            List.countP_cons_of_neg (by simp [houtbox]),
            @ih (front ++ [peer]) drawn served hids (by simp [hmembers])]
          simp
      | some outbox =>
          rw [htakes drawn served front peer rest outbox hids hmembers houtbox,
            List.countP_cons_of_pos (by simp [houtbox]),
            @ih (front ++ [peer.handed { message, ticket := some served.tickets }]) _ _
              (by simpa [hmembers] using hids) (by simp)]
          simp [List.range'_succ, Nat.add_assoc, Nat.add_comm 1]

/-- A message that is queued on all members with tickets: a ticket for every member that takes it,
in order, and nothing else of the pool changes. -/
theorem broadcastTicketed_eq (hids : (pool.members.map (·.id)).Nodup) (message : Message) :
    pool.broadcastTicketed message =
      (List.range' pool.tickets pool.takers,
        { pool with
          members := handedOut message pool.tickets pool.members
          tickets := pool.tickets + pool.takers }) := by
  refine foldl_handedOut (fun drawn served front peer rest outbox hserved hmembers houtbox => ?_)
    (fun sent peer hnone => ?_) pool.members hids (List.nil_append _).symm
  · rw [sendTicketed_of_some hserved hmembers houtbox]
  · obtain ⟨cause, hrefused⟩ := sendTicketed_of_none hnone sent.2 message
    rw [hrefused]

end Pool

end Overlay
