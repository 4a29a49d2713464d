import Overlay.Proofs.Peer.Guarantees

/-!
# The end of a session

The reader of a session hands over what it reads, and at last why it stopped.
The writer hands over that it failed.  The supervisor selects from the two as
it likes, and the first end that it selects is the end of the session for it.
What it selected before is forwarded and counted, in order.  If it learned of
the end from the reader, that is all that was read.  If it learned of it from
the writer, then what the reader had handed over and was not selected is
dropped, be it a goodbye or a breach of the protocol.
-/

namespace Overlay.Life

open Wire

/-- What the reader of a session hands over. -/
inductive ReaderEvent
  | message (message : Message)
  | closed (cause : NetError)

/-- How the supervisor learned of the end of a session. -/
inductive Ending
  | byReader (cause : NetError)
  | byWriter (cause : NetError)

/-- What a cause adds to the breaches of the protocol. -/
def breachesOf : NetError → Nat
  | .protocol _ => 1
  | _ => 0

def Ending.breaches : Ending → Nat
  | .byReader cause => breachesOf cause
  | .byWriter cause => breachesOf cause

/-- A session at which a supervisor is, with what its reader and its writer handed over. -/
structure Attendance where
  life : Life
  /-- The messages that the reader has read. -/
  said : List Message := []
  /-- Why the reader stopped. -/
  closed : Option NetError := none
  /-- What the reader handed over and was not selected. -/
  waiting : List ReaderEvent := []
  /-- Why the writer failed. -/
  failure : Option NetError := none
  /-- The messages that were selected. -/
  forwarded : List Message := []
  /-- The end that was selected. -/
  ended : Option Ending := none

namespace Attendance

/-- All that the reader has handed over. -/
def stream (attendance : Attendance) : List ReaderEvent :=
  attendance.said.map .message ++ attendance.closed.toList.map .closed

/-- What of it was selected. -/
def taken (attendance : Attendance) : List ReaderEvent :=
  attendance.forwarded.map .message ++
    match attendance.ended with
    | some (.byReader cause) => [.closed cause]
    | _ => []

end Attendance

/-- The steps of a session, up to where the supervisor attends to the next one. -/
inductive Serves : Attendance → Attendance → Prop
  -- the reader reads a message
  | say {before : Attendance} (hclosed : before.closed = none) (message : Message) :
      Serves before { before with
        said := before.said ++ [message]
        waiting := before.waiting ++ [.message message] }
  -- the reader stops
  | close {before : Attendance} (hclosed : before.closed = none) (cause : NetError) :
      Serves before { before with
        closed := some cause
        waiting := before.waiting ++ [.closed cause] }
  -- the writer fails
  | fail {before : Attendance} (hfailure : before.failure = none) (cause : NetError) :
      Serves before { before with failure := some cause }
  -- a message is selected
  | forward {before : Attendance} {line : Nat} {message : Message} {rest : List ReaderEvent}
      (hended : before.ended = none) (hstage : before.life.stage = .pumping line)
      (hwaiting : before.waiting = .message message :: rest) :
      Serves before { before with
        life := { before.life with
          peer := before.life.peer.hear message
          emitted := before.life.emitted ++
            before.life.peer.told (.message before.life.peer.id message) }
        waiting := rest
        forwarded := before.forwarded ++ [message] }
  -- the end of the reader is selected
  | finish {before : Attendance} {line : Nat} {cause : NetError} {rest : List ReaderEvent}
      (hended : before.ended = none) (hstage : before.life.stage = .pumping line)
      (hwaiting : before.waiting = .closed cause :: rest) :
      Serves before { before with
        life := { before.life with
          peer := before.life.peer.charge cause
          stage := .stopped line cause }
        waiting := rest
        ended := some (.byReader cause) }
  -- the failure of the writer is selected
  | abort {before : Attendance} {line : Nat} {cause : NetError}
      (hended : before.ended = none) (hstage : before.life.stage = .pumping line)
      (hfailure : before.failure = some cause) :
      Serves before { before with
        life := { before.life with
          peer := before.life.peer.charge cause
          stage := .stopped line cause }
        ended := some (.byWriter cause) }
  -- the supervisor goes on after the end
  | goOn {before : Attendance} {next : Life} (hended : before.ended ≠ none)
      (hstage : ∀ line, before.life.stage ≠ .pumping line)
      (hsupervised : Supervised before.life next) :
      Serves before { before with life := next }
  -- others call
  | meanwhile {before : Attendance} {next : Life} (hmeanwhile : Meanwhile before.life next) :
      Serves before { before with life := next }

/-- What the attendance of a session may come to. -/
inductive Attending (first : Attendance) : Attendance → Prop
  | refl : Attending first first
  | step {before after : Attendance} (hattending : Attending first before)
      (hserves : Serves before after) : Attending first after

variable {life next : Life} {before after : Attendance}

/-- A step of a session is one of the life of the peer, or leaves it as it is. -/
theorem Serves.step (hserves : Serves before after) :
    after.life = before.life ∨ Step before.life after.life := by
  cases hserves with
  | say | close | fail => exact Or.inl rfl
  | forward hended hstage hwaiting => exact Or.inr (Or.inl (Supervised.hear hstage _))
  | finish hended hstage | abort hended hstage =>
      exact Or.inr (Or.inl (Supervised.stop hstage _))
  | goOn hended hstage hsupervised => exact Or.inr (Or.inl hsupervised)
  | meanwhile hmeanwhile => exact Or.inr (Or.inr hmeanwhile)

theorem Attending.exists_run {first : Attendance} (hattending : Attending first after) :
    ∃ count, Run first.life count after.life := by
  induction hattending with
  | refl => exact ⟨0, Run.refl⟩
  | step hattending hserves ih =>
      obtain ⟨count, hrun⟩ := ih
      rcases hserves.step with hsame | hsupervised | hmeanwhile
      · exact ⟨count, hsame ▸ hrun⟩
      · exact ⟨count + 1, hrun.supervise hsupervised⟩
      · exact ⟨count, hrun.interpose hmeanwhile⟩

/-! ## Counts -/

theorem breaches_charge (peer : Peer) (cause : NetError) :
    (peer.charge cause).breaches = peer.breaches + breachesOf cause := by
  cases cause <;> rfl

theorem Meanwhile.counts_eq (hmeanwhile : Meanwhile life next) :
    next.peer.received = life.peer.received ∧ next.peer.breaches = life.peer.breaches := by
  cases hmeanwhile with
  | adopt hfresh hadopt =>
      obtain ⟨-, rfl⟩ := (Peer.adopt_eq_some_iff _ _ _).1 hadopt
      exact ⟨rfl, rfl⟩
  | proceed hcalls hproceed hopen =>
      exact ⟨(Teardown.keeps hproceed).received, (Teardown.keeps hproceed).breaches⟩
  | _ => exact ⟨rfl, rfl⟩

/-- A supervisor that does not attend to a session counts nothing and forwards no message. -/
theorem Turn.counts_eq (hturn : Turn life next) (hstage : ∀ line, life.stage ≠ .pumping line) :
    next.peer.received = life.peer.received ∧ next.peer.breaches = life.peer.breaches ∧
      ∃ fresh, next.emitted = life.emitted ++ fresh ∧ ∀ event ∈ fresh, event.isMessage = false := by
  cases hturn with
  | heard hpumping => exact absurd hpumping (hstage _)
  | announced hrestored hnext =>
      subst hnext
      refine ⟨rfl, rfl, _, rfl, fun event hmem => ?_⟩
      rw [Peer.mem_told hmem]
      rfl
  | reported hleaving hnext =>
      subst hnext
      refine ⟨rfl, rfl, _, rfl, fun event hmem => ?_⟩
      rw [Peer.mem_told hmem]
      rfl
  | torn htearing hproceed hnext =>
      subst hnext
      exact ⟨(Teardown.keeps hproceed).received, (Teardown.keeps hproceed).breaches, [],
        (List.append_nil _).symm, nofun⟩
  | resumed hsilent | quiet hsilent =>
      exact ⟨hsilent.received, hsilent.breaches hstage, [],
        hsilent.emitted.trans (List.append_nil _).symm, nofun⟩

/-! ## What is kept of a session -/

/-- What holds of a session that began in a life on a line. -/
structure Accounted (first : Life) (id line : Nat) (attendance : Attendance) : Prop where
  order : attendance.stream = attendance.taken ++ attendance.waiting
  received : attendance.life.peer.received =
    first.peer.received + attendance.forwarded.length
  breaches : attendance.life.peer.breaches =
    first.peer.breaches + (attendance.ended.map Ending.breaches).getD 0
  attends : attendance.ended = none → attendance.life.stage = .pumping line
  told : attendance.life.calls = [] → ∃ rest, attendance.life.emitted = first.emitted ++
    attendance.forwarded.map (.message id) ++ rest ∧ (∀ event ∈ rest, event.isMessage = false) ∧
      (attendance.ended = none → rest = [])
  remembered : ∀ message ∈ attendance.forwarded,
    message.tag = MessageKind.disconnect.tag → attendance.life.peer.closing = true
  failed : ∀ cause, attendance.ended = some (.byWriter cause) → attendance.failure = some cause

variable {first : Life} {id line : Nat}

theorem accounted_begin (hstage : first.stage = .pumping line) :
    Accounted first id line { life := first } where
  order := rfl
  received := rfl
  breaches := rfl
  attends := fun _ => hstage
  told := fun _ => ⟨[], by simp, nofun, fun _ => rfl⟩
  remembered := nofun
  failed := nofun

/-- A message is handed over, a failure is, or a call of others goes on. -/
theorem Accounted.congr (haccounted : Accounted first id line before)
    (horder : after.stream = after.taken ++ after.waiting)
    (hforwarded : after.forwarded = before.forwarded) (hended : after.ended = before.ended)
    (hfailure : ∀ cause, before.failure = some cause → after.failure = some cause)
    (hstage : after.life.stage = before.life.stage)
    (hemitted : after.life.emitted = before.life.emitted)
    (hcalls : after.life.calls = [] → before.life.calls = [])
    (hreceived : after.life.peer.received = before.life.peer.received)
    (hbreaches : after.life.peer.breaches = before.life.peer.breaches)
    (hclosing : after.life.peer.closing = before.life.peer.closing) :
    Accounted first id line after where
  order := horder
  received := by rw [hreceived, hforwarded, haccounted.received]
  breaches := by rw [hbreaches, hended, haccounted.breaches]
  attends := by rw [hended, hstage]; exact haccounted.attends
  told := fun hnone => by
    rw [hemitted, hforwarded, hended]
    exact haccounted.told (hcalls hnone)
  remembered := by rw [hforwarded, hclosing]; exact haccounted.remembered
  failed := fun cause hcause => hfailure cause (haccounted.failed cause (hended ▸ hcause))

theorem Meanwhile.calls_nil (hmeanwhile : Meanwhile life next) (hnone : next.calls = []) :
    life.calls = [] := by
  cases hmeanwhile with
  | call => exact absurd hnone (List.cons_ne_nil _ _)
  | proceed hcalls hproceed hopen =>
      exact absurd hnone (List.append_ne_nil_of_right_ne_nil _ (List.cons_ne_nil _ _))
  | _ => exact hnone

/-- The end of a session is selected. -/
theorem Accounted.stop (haccounted : Accounted first id line before)
    (hopen : before.ended = none) {cause : NetError} {ending : Ending}
    (hending : ending.breaches = breachesOf cause)
    (hlife : after.life = { before.life with
      peer := before.life.peer.charge cause
      stage := .stopped line cause })
    (horder : after.stream = after.taken ++ after.waiting)
    (hforwarded : after.forwarded = before.forwarded) (hended : after.ended = some ending)
    (hfailed : ∀ cause, ending = .byWriter cause → after.failure = some cause) :
    Accounted first id line after := by
  obtain ⟨breaches, hcharge⟩ := Peer.exists_charge before.life.peer cause
  constructor
  case order => exact horder
  case received =>
    rw [hlife, hforwarded, hcharge]
    exact haccounted.received
  case breaches =>
    have hbefore := haccounted.breaches
    rw [hopen] at hbefore
    rw [hlife, hended]
    show (before.life.peer.charge cause).breaches = first.peer.breaches + ending.breaches
    rw [breaches_charge, hbefore, hending]
    rfl
  case attends => exact fun hnone => absurd (hended.symm.trans hnone) nofun
  case told =>
    intro hnone
    rw [hlife] at hnone ⊢
    obtain ⟨rest, htold, hrest, -⟩ := haccounted.told hnone
    rw [hforwarded]
    exact ⟨rest, htold, hrest, fun hnone => absurd (hended.symm.trans hnone) nofun⟩
  case remembered =>
    rw [hlife, hforwarded, hcharge]
    exact haccounted.remembered
  case failed =>
    intro other hother
    rw [hended] at hother
    exact hfailed other (Option.some.inj hother)

/-- A message is selected, forwarded and counted. -/
theorem Accounted.forward (haccounted : Accounted first id line before) {start : Nat}
    (hhonest : before.life.Honest id start) (hopen : before.ended = none) {message : Message}
    {rest : List ReaderEvent} (hwaiting : before.waiting = .message message :: rest) :
    Accounted first id line { before with
      life := { before.life with
        peer := before.life.peer.hear message
        emitted := before.life.emitted ++
          before.life.peer.told (.message before.life.peer.id message) }
      waiting := rest
      forwarded := before.forwarded ++ [message] } := by
  have hstage := haccounted.attends hopen
  constructor
  case order =>
    have horder := haccounted.order
    simp only [Attendance.stream, Attendance.taken, hopen, hwaiting, List.append_nil] at horder ⊢
    rw [horder, List.map_append, List.append_assoc]
    rfl
  case received =>
    show before.life.peer.received + 1 = _
    rw [haccounted.received, List.length_append, List.length_singleton, Nat.add_assoc]
  case breaches => exact haccounted.breaches
  case attends => exact haccounted.attends
  case told =>
    intro hcalls
    obtain ⟨others, htold, -, hnone⟩ := haccounted.told hcalls
    obtain rfl := hnone hopen
    have hattached := (hhonest.unended hcalls (by rw [hstage]; rfl)).1
    refine ⟨[], ?_, nofun, fun _ => rfl⟩
    simp [htold, Peer.told, hattached, hhonest.identified]
  case remembered =>
    intro other hmem htag
    show (before.life.peer.closing || _) = true
    rcases List.mem_append.1 hmem with hold | hnew
    · rw [haccounted.remembered other hold htag, Bool.true_or]
    · rw [← List.mem_singleton.1 hnew, htag]
      simp
  case failed => exact haccounted.failed

/-- The supervisor goes on after the end of a session. -/
theorem Accounted.goOn (haccounted : Accounted first id line before) (hended : before.ended ≠ none)
    (hstage : ∀ other, before.life.stage ≠ .pumping other) (hturn : Turn before.life next)
    (hcalls : next.calls = before.life.calls) :
    Accounted first id line { before with life := next } := by
  obtain ⟨hreceived, hbreaches, fresh, hfresh, hquiet⟩ := hturn.counts_eq hstage
  constructor
  case order => exact haccounted.order
  case received => exact hreceived.trans haccounted.received
  case breaches => exact hbreaches.trans haccounted.breaches
  case attends => exact fun hnone => absurd hnone hended
  case told =>
    intro hnone
    obtain ⟨rest, htold, hrest, -⟩ := haccounted.told (hcalls ▸ hnone)
    refine ⟨rest ++ fresh, ?_, fun event hmem => ?_, fun hnone => absurd hnone hended⟩
    · rw [hfresh, htold, List.append_assoc]
    · exact (List.mem_append.1 hmem).elim (hrest event) (hquiet event)
  case remembered =>
    intro message hmem htag
    exact hturn.closing (haccounted.remembered message hmem htag)
  case failed => exact haccounted.failed

theorem Serves.accounted (hserves : Serves before after) {start : Nat}
    (hhonest : before.life.Honest id start) (haccounted : Accounted first id line before) :
    Accounted first id line after := by
  have horder := haccounted.order
  have hline {other : Nat} (hended : before.ended = none)
      (hstage : before.life.stage = .pumping other) : other = line :=
    Stage.pumping.inj (hstage.symm.trans (haccounted.attends hended))
  cases hserves with
  | say hclosed message =>
      refine haccounted.congr ?_ rfl rfl (fun _ hcause => hcause) rfl rfl (fun hnone => hnone) rfl
        rfl rfl
      simp only [Attendance.stream, Attendance.taken, hclosed, Option.toList_none, List.map_nil,
        List.append_nil] at horder ⊢
      rw [List.map_append, horder, List.append_assoc]
      rfl
  | close hclosed cause =>
      refine haccounted.congr ?_ rfl rfl (fun _ hcause => hcause) rfl rfl (fun hnone => hnone) rfl
        rfl rfl
      simp only [Attendance.stream, Attendance.taken, hclosed, Option.toList_none, List.map_nil,
        List.append_nil] at horder ⊢
      rw [horder, List.append_assoc]
      rfl
  | fail hfailure cause =>
      refine haccounted.congr horder rfl rfl (fun other hother => ?_) rfl rfl (fun hnone => hnone)
        rfl rfl rfl
      exact absurd (hfailure.symm.trans hother) nofun
  | forward hended hstage hwaiting => exact haccounted.forward hhonest hended hwaiting
  | finish hended hstage hwaiting =>
      obtain rfl := hline hended hstage
      refine haccounted.stop hended rfl rfl ?_ rfl rfl nofun
      simp only [Attendance.stream, Attendance.taken, hended, hwaiting, List.append_nil] at horder ⊢
      rw [horder, List.append_assoc]
      rfl
  | abort hended hstage hfailure =>
      obtain rfl := hline hended hstage
      refine haccounted.stop hended rfl rfl ?_ rfl rfl fun other hother => ?_
      · simpa only [Attendance.stream, Attendance.taken, hended] using horder
      · rw [← Ending.byWriter.inj hother]
        exact hfailure
  | goOn hended hstage hsupervised =>
      exact haccounted.goOn hended hstage (hsupervised.turn hhonest.sound.phase)
        hsupervised.calls_eq
  | meanwhile hmeanwhile =>
      obtain ⟨hreceived, hbreaches⟩ := hmeanwhile.counts_eq
      exact haccounted.congr horder rfl rfl (fun _ hcause => hcause) hmeanwhile.stage_eq
        hmeanwhile.emitted_eq hmeanwhile.calls_nil hreceived hbreaches hmeanwhile.closing_eq

theorem Attending.accounted (hattending : Attending { life := first } after) {start : Nat}
    (hhonest : first.Honest id start) (hstage : first.stage = .pumping line) :
    Accounted first id line after := by
  induction hattending with
  | refl => exact accounted_begin hstage
  | step hattending hserves ih =>
      obtain ⟨count, hrun⟩ := hattending.exists_run
      exact hserves.accounted (hrun.honest hhonest) ih

/-- What was selected of a reader are the first of its messages, as long as only messages were. -/
theorem exists_left {said forwarded : List Message} {closed : Option NetError}
    {rest : List ReaderEvent}
    (horder : said.map ReaderEvent.message ++ closed.toList.map .closed =
      forwarded.map ReaderEvent.message ++ rest) :
    ∃ left, said = forwarded ++ left ∧
      rest = left.map ReaderEvent.message ++ closed.toList.map .closed := by
  induction forwarded generalizing said with
  | nil => exact ⟨said, rfl, horder.symm⟩
  | cons message forwarded ih =>
      cases said with
      | nil => cases closed <;> exact absurd horder nofun
      | cons other said =>
          obtain ⟨hhead, htail⟩ := List.cons.inj horder
          obtain ⟨left, hsaid, hrest⟩ := ih htail
          refine ⟨left, ?_, hrest⟩
          rw [ReaderEvent.message.inj hhead, hsaid]
          rfl

/-- What the reader read, what was selected of it, and what was left. -/
theorem Accounted.exists_left (haccounted : Accounted first id line after) :
    ∃ left, after.said = after.forwarded ++ left ∧
      match after.ended with
      | some (.byReader cause) => left = [] ∧ after.closed = some cause ∧ after.waiting = []
      | _ => after.waiting = left.map .message ++ after.closed.toList.map .closed := by
  have horder := haccounted.order
  rw [Attendance.stream, Attendance.taken, List.append_assoc] at horder
  obtain ⟨left, hsaid, hrest⟩ := Life.exists_left horder
  refine ⟨left, hsaid, ?_⟩
  match hended : after.ended with
  | some (.byReader cause) =>
      rw [hended] at hrest
      -- a reader hands over nothing after its end
      cases left with
      | cons message left => exact absurd hrest nofun
      | nil =>
          cases hclosed : after.closed with
          | none =>
              rw [hclosed] at hrest
              exact absurd hrest nofun
          | some other =>
              rw [hclosed] at hrest
              obtain ⟨hhead, htail⟩ := List.cons.inj hrest
              exact ⟨rfl, by rw [ReaderEvent.closed.inj hhead], htail⟩
  | some (.byWriter cause) =>
      rw [hended] at hrest
      exact hrest
  | none =>
      rw [hended] at hrest
      exact hrest

/-! ## What is lost and what is not -/

/-- What a supervisor makes of a session that began in a life. -/
structure Attended (first : Life) (id : Nat) (attendance : Attendance) : Prop where
  /-- What was forwarded are the first messages that were read, each counted, and told in order. -/
  forwarded : ∃ left rest, attendance.said = attendance.forwarded ++ left ∧
    attendance.life.peer.received = first.peer.received + attendance.forwarded.length ∧
    attendance.life.emitted =
      first.emitted ++ attendance.forwarded.map (.message id) ++ rest ∧
    ∀ event ∈ rest, event.isMessage = false
  /-- As long as the session has not ended, the others wait. -/
  waits : attendance.ended = none →
    attendance.said.map .message ++ attendance.closed.toList.map .closed =
      attendance.forwarded.map .message ++ attendance.waiting
  /-- If the supervisor learned of the end from the reader, all that was read was forwarded, and a
  breach of the protocol was counted. -/
  all : ∀ cause, attendance.ended = some (.byReader cause) →
    attendance.forwarded = attendance.said ∧ attendance.closed = some cause ∧
      attendance.life.peer.breaches = first.peer.breaches + breachesOf cause
  /-- Otherwise the writer had failed. -/
  failed : ∀ cause, attendance.ended = some (.byWriter cause) → attendance.failure = some cause
  /-- After a goodbye was forwarded, the peer never waits for a line, and no dial is made. -/
  parted : ∀ message ∈ attendance.forwarded, message.tag = MessageKind.disconnect.tag →
    attendance.life.peer.state ≠ .reconnecting ∧
      ∀ slots last, attendance.life.stage ≠ .dialing slots last

/-- **Nothing is lost of a session whose reader ends it.**  Of every session of a peer that nobody
ends, in whatever order its reader and its writer hand over and the supervisor selects, the
messages are forwarded and counted one by one as they were read, and all of them are before the end
of the reader is selected.  Only a failure of the writer that is selected first leaves some
behind. -/
theorem attended_of_run {link : Link} {policy : LinkPolicy} {count : Nat}
    (hrun : Run (start id link policy) count first) (hstage : first.stage = .pumping line)
    {attendance : Attendance} (hattending : Attending { life := first } attendance)
    (hcalls : attendance.life.calls = []) : Attended first id attendance := by
  have hhonest := hrun.honest (honest_start id link policy)
  have haccounted := hattending.accounted hhonest hstage
  obtain ⟨left, hsaid, hleft⟩ := haccounted.exists_left
  constructor
  case forwarded =>
    obtain ⟨rest, htold, hrest, -⟩ := haccounted.told hcalls
    exact ⟨left, rest, hsaid, haccounted.received, htold, hrest⟩
  case waits =>
    intro hended
    simpa only [Attendance.stream, Attendance.taken, hended, List.append_nil] using
      haccounted.order
  case all =>
    intro cause hended
    have hbreaches := haccounted.breaches
    rw [hended] at hleft hbreaches
    obtain ⟨rfl, hclosed, -⟩ := hleft
    exact ⟨by rw [hsaid, List.append_nil], hclosed, hbreaches⟩
  case failed => exact haccounted.failed
  case parted =>
    intro message hmem htag
    obtain ⟨later, hlater⟩ := hattending.exists_run
    exact (hlater.honest hhonest).stays (haccounted.remembered message hmem htag)

/-- A message and the breach after it, selected one after the other. -/
theorem attended_of_run_breach :
    ∃ attendance, Attending { life := start 1 inboundLink {} } attendance ∧
      attendance.ended = some (.byReader (.protocol (.unknownFlag 9))) ∧
      attendance.life.peer.received = 1 ∧ attendance.life.peer.breaches = 1 ∧
      Attended (start 1 inboundLink {}) 1 attendance := by
  have hattending := (@Attending.refl { life := start 1 inboundLink {} })
    |>.step (Serves.say rfl ⟨3, .ofBytes [7]⟩)
    |>.step (Serves.close rfl (.protocol (.unknownFlag 9)))
    |>.step (Serves.fail rfl (.io "broken pipe"))
    |>.step (Serves.forward rfl rfl rfl)
    |>.step (Serves.finish rfl rfl rfl)
  exact ⟨_, hattending, rfl, rfl, rfl, attended_of_run Run.refl rfl hattending rfl⟩

/-! ## A failure that is selected first -/

/-- The peer of the node at the other end of a line that was dialed. -/
def outboundLink : Link :=
  { inboundLink with direction := .outbound }

/-- A goodbye and a breach that wait when the failure of the writer is selected are lost, and the
peer dials again. -/
theorem not_attended_on_failure :
    ∃ attendance, Attending { life := start 1 outboundLink {} } attendance ∧
      attendance.life.calls = [] ∧ attendance.said = [⟨6, .ofBytes []⟩] ∧
      attendance.closed = some (.protocol (.unknownFlag 9)) ∧ attendance.forwarded = [] ∧
      attendance.life.peer.received = 0 ∧ attendance.life.peer.breaches = 0 ∧
      attendance.life.emitted = [] ∧
      ∃ slots last, attendance.life.stage = .dialing slots last := by
  have hattending := (@Attending.refl { life := start 1 outboundLink {} })
    |>.step (Serves.say rfl ⟨6, .ofBytes []⟩)
    |>.step (Serves.close rfl (.protocol (.unknownFlag 9)))
    |>.step (Serves.fail rfl (.io "broken pipe"))
    |>.step (Serves.abort rfl rfl rfl)
    |>.step (Serves.goOn nofun nofun (Supervised.live rfl nofun))
    |>.step (Serves.goOn nofun nofun (Supervised.stay rfl rfl))
    |>.step (Serves.goOn nofun nofun (Supervised.lose rfl rfl))
    |>.step (Serves.goOn nofun nofun (Supervised.drop rfl rfl))
    |>.step (Serves.goOn nofun nofun (Supervised.dial rfl rfl))
  exact ⟨_, hattending, rfl, rfl, rfl, rfl, rfl, rfl, rfl, _, _, rfl⟩

end Overlay.Life
