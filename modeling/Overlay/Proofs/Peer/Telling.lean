import Overlay.Proofs.Peer.Lifecycle

/-!
# What a section tells

A supervisor speaks in three of its sections: it forwards a message, it
announces the line that it went over to, and it says that the peer cannot be
reached.  All others are silent.  `Turn` sorts the sections of a supervisor by
that, and says of each sort what the order of the lines and of the events needs
to know of it.
-/

namespace Overlay

open Wire

namespace Stage

/-- The line that the supervisor has dialed and not installed. -/
def dialed? : Stage → Option Nat
  | .dialed _ _ line => some line
  | _ => none

/-- Whether the supervisor has given up a session, up to where it announces the next one. -/
def isAside : Stage → Bool
  | .losing _ => true
  | .dropping _ => true
  | .waiting _ _ => true
  | .dialing _ _ => true
  | .dialed _ _ _ => true
  | .collecting => true
  | .restored _ => true
  | _ => false

/-- Whether the supervisor has said the last that it had to say. -/
def isSpent : Stage → Bool
  | .tearing _ => true
  | .gone => true
  | _ => false

/-- A supervisor that looks for a line is aside, and has not begun to leave. -/
theorem aside_of_isSearching {stage : Stage} (hsearching : stage.isSearching = true) :
    stage.isAside = true ∧ stage.isSpent = false ∧ stage.isLeaving = false := by
  cases stage <;> first | exact ⟨rfl, rfl, rfl⟩ | exact absurd hsearching Bool.false_ne_true

/-- A supervisor may go from one stage to another without a word. -/
structure Passes (before after : Stage) : Prop where
  stays : before.isLeaving = false
  before_ne : ∀ line, before ≠ .restored line
  after_ne : ∀ line, after ≠ .restored line
  attended : after.attended? = none ∨ after.attended? = before.attended?
  spent : before.isSpent = true → after.isSpent = true
  gone : after.isSpent = true → after = .gone

end Stage

/-- What an ending leaves of a peer as it was.  Nobody hears it again that does not hear it. -/
structure Teardown.Keeps (peer torn : Peer) : Prop where
  id : torn.id = peer.id
  received : torn.received = peer.received
  breaches : torn.breaches = peer.breaches
  handoff : torn.handoff = peer.handoff
  closing : torn.closing = peer.closing
  attached : torn.attached = true → peer.attached = true

theorem Teardown.keeps {teardown after : Teardown} {peer torn : Peer} {line : Option Nat}
    (hproceed : teardown.proceed peer = (after, line, torn)) : Keeps peer torn := by
  cases teardown with
  | detaching wasLive =>
      obtain ⟨-, -, rfl⟩ := hproceed
      exact ⟨rfl, rfl, rfl, rfl, rfl, nofun⟩
  | _ =>
      obtain ⟨-, -, rfl⟩ := hproceed
      exact ⟨rfl, rfl, rfl, rfl, rfl, id⟩

/-- Nothing is heard but what is told. -/
theorem Peer.mem_told {peer : Peer} {event other : PeerEvent} (hmem : event ∈ peer.told other) :
    event = other := by
  rw [told] at hmem
  split at hmem
  · exact List.mem_singleton.1 hmem
  · exact absurd hmem List.not_mem_nil

namespace Life

/-- The lines that the supervisor may go over to next. -/
def candidates (life : Life) : List Nat :=
  life.peer.handoff.toList ++ life.stage.dialed?.toList

variable {life next : Life}

/-- A section in which nothing is told, and which leaves the peer as it was to those who hear it.
Only the end of a session may be a breach. -/
structure Silent (life next : Life) : Prop where
  emitted : next.emitted = life.emitted
  id : next.peer.id = life.peer.id
  received : next.peer.received = life.peer.received
  breaches : (∀ line, life.stage ≠ .pumping line) → next.peer.breaches = life.peer.breaches
  attached : next.peer.attached = life.peer.attached
  closing : next.peer.closing = life.peer.closing
  state : next.peer.state = .disconnected →
    life.peer.state = .disconnected ∨ next.stage.isLeaving = true

/-- What a section of the supervisor tells, and where it leads. -/
inductive Turn (life next : Life) : Prop
  -- a message is forwarded
  | heard {line : Nat} (hstage : life.stage = .pumping line) (message : Message)
      (hnext : next = { life with
        peer := life.peer.hear message
        emitted := life.emitted ++ life.peer.told (.message life.peer.id message) })
  -- a new line is announced
  | announced {line : Nat} (hstage : life.stage = .restored line)
      (hnext : next = { life with
        stage := .pumping line
        emitted := life.emitted ++ life.peer.told (.reconnected life.peer.id) })
  -- the end is announced
  | reported {cause : NetError} (hstage : life.stage = .leaving cause)
      (hnext : next = { life with
        stage := .tearing .marking
        emitted := life.emitted ++ life.peer.told (.unreachable life.peer.id cause) })
  -- the peer is ended
  | torn {teardown after : Teardown} {line : Option Nat} {torn : Peer}
      (hstage : life.stage = .tearing teardown)
      (hproceed : teardown.proceed life.peer = (after, line, torn))
      (hnext : next = { life with
        peer := torn
        stage := .tearing after
        shut := line.toList ++ life.shut })
  -- the supervisor goes over to a line
  | resumed {line : Nat} (hsilent : Silent life next) (hsearching : life.stage.isSearching = true)
      (hline : line ∈ life.candidates) (hstage : next.stage = .restored line)
      (hresumed : next.resumed = line :: life.resumed) (hoffered : next.offered = life.offered)
      (hcandidates : next.candidates = [])
  -- nothing that anybody would notice
  | quiet (hsilent : Silent life next) (hpasses : life.stage.Passes next.stage)
      (haside : next.stage.isAside = true → life.stage.isAside = true ∨ life.peer.closing = false)
      (hresumed : next.resumed = life.resumed)
      (hoffered : ∀ line ∈ life.offered, line ∈ next.offered)
      (hcandidates : ∀ line ∈ next.candidates,
        line ∈ life.candidates ∨ line ∈ next.offered ∧ line ∉ life.offered)

/-- Of a peer that waits for a line nothing was left to the supervisor. -/
theorem Phase.candidates_eq (hphase : life.Phase) (hwaits : life.peer.state = .reconnecting) :
    life.candidates = life.stage.dialed?.toList := by
  rw [candidates, hphase.handoff_eq_none hwaits, Option.toList_none, List.nil_append]

/-- A section that leaves the peer as it is tells nothing by it. -/
theorem Silent.of_peer_eq (hemitted : next.emitted = life.emitted)
    (hpeer : next.peer = life.peer) : Silent life next := by
  constructor
  case emitted => exact hemitted
  case state => exact fun hstate => Or.inl (by rwa [hpeer] at hstate)
  all_goals simp [hpeer]

/-- The supervisor goes over to a line that was left to it. -/
theorem Turn.pickedUp {line : Nat} {picked : Peer} (hhandoff : life.peer.handoff = some line)
    (hpick : life.peer.pickUp = some picked) (hsearching : life.stage.isSearching = true)
    (hpeer : next.peer = picked) (hstage : next.stage = .restored line)
    (hresumed : next.resumed = line :: life.resumed) (hoffered : next.offered = life.offered)
    (hemitted : next.emitted = life.emitted) : Turn life next := by
  obtain ⟨-, rfl⟩ := (Peer.pickUp_eq_some_iff _ _).1 hpick
  refine Turn.resumed ?_ hsearching ?_ hstage hresumed hoffered ?_
  · constructor
    case emitted => exact hemitted
    case state => exact fun hstate => Or.inl (by rwa [hpeer] at hstate)
    all_goals simp [hpeer]
  · simp [candidates, hhandoff]
  · simp [candidates, hpeer, hstage, Stage.dialed?]

/-- A section that is offered no line and goes over to none is quiet. -/
theorem Turn.still (hsilent : Silent life next) (hpasses : life.stage.Passes next.stage)
    (haside : next.stage.isAside = true → life.stage.isAside = true ∨ life.peer.closing = false)
    (hresumed : next.resumed = life.resumed) (hoffered : next.offered = life.offered)
    (hcandidates : next.candidates ⊆ life.candidates) : Turn life next :=
  .quiet hsilent hpasses haside hresumed (fun _ hmem => hoffered ▸ hmem)
    fun _ hmem => Or.inl (hcandidates hmem)

/-- A line that was dialed is a candidate from then on. -/
theorem Turn.answered {slots line : Nat} {last : NetError}
    (hdialing : life.stage = .dialing slots last) (hfresh : line ∉ life.offered) :
    Turn life { life with stage := .dialed slots last line, offered := line :: life.offered } := by
  have hpasses : life.stage.Passes (.dialed slots last line) := by
    rw [hdialing]
    exact ⟨rfl, nofun, nofun, Or.inl rfl, nofun, nofun⟩
  refine Turn.quiet (.of_peer_eq rfl rfl) hpasses (fun _ => Or.inl (by rw [hdialing]; rfl)) rfl
    (fun _ hmem => List.mem_cons_of_mem _ hmem) fun other hmem => ?_
  rcases List.mem_append.1 hmem with hhandoff | hdialed
  · exact Or.inl (List.mem_append_left _ hhandoff)
  · obtain rfl : other = line := by simpa [Stage.dialed?] using hdialed
    exact Or.inr ⟨List.mem_cons_self, hfresh⟩

/-- Every section of a supervisor is of one of the sorts. -/
theorem Supervised.turn (hsupervised : Supervised life next) (hphase : life.Phase) :
    Turn life next := by
  cases hsupervised
  case hear line hpumping message => exact Turn.heard hpumping message rfl
  case announce line hrestored => exact Turn.announced hrestored rfl
  case report cause hleaving => exact Turn.reported hleaving rfl
  case tear teardown after line torn htearing hproceed hopen =>
    exact Turn.torn htearing hproceed rfl
  case receive slots last line picked hwaiting hhandoff hpick =>
    exact Turn.pickedUp hhandoff hpick (by rw [hwaiting]; rfl) rfl rfl rfl rfl rfl
  case overtaken slots last line other picked hdialed hinstall hhandoff hpick =>
    exact Turn.pickedUp hhandoff hpick (by rw [hdialed]; rfl) rfl rfl rfl rfl rfl
  case collect line picked hcollecting hhandoff hpick =>
    exact Turn.pickedUp hhandoff hpick (by rw [hcollecting]; rfl) rfl rfl rfl rfl rfl
  case install slots last line installed hdialed hinstall =>
    obtain ⟨hwaits, rfl⟩ := (Peer.install_eq_some_iff _ _ _).1 hinstall
    refine Turn.resumed ⟨rfl, rfl, rfl, fun _ => rfl, rfl, rfl, nofun⟩ (by rw [hdialed]; rfl) ?_ rfl
      rfl rfl ?_
    · simp [hphase.candidates_eq hwaits, hdialed, Stage.dialed?]
    · simp [candidates, hphase.handoff_eq_none hwaits, Stage.dialed?]
  case answered slots last link hdialing hkey hfresh => exact Turn.answered hdialing hfresh
  -- the peer changes in the next three, and nobody who hears it notices
  case stop line hpumping cause =>
    have hpasses : life.stage.Passes (.stopped line cause) := by
      rw [hpumping]
      exact ⟨rfl, nofun, nofun, Or.inr rfl, nofun, nofun⟩
    obtain ⟨breaches, hcharge⟩ := Peer.exists_charge life.peer cause
    rw [hcharge]
    refine Turn.still ⟨rfl, rfl, rfl, fun hne => absurd hpumping (hne line), rfl, rfl, Or.inl⟩
      hpasses nofun rfl rfl ?_
    simp [candidates, hpumping, Stage.dialed?]
  case lose line stale lost hlosing hlose =>
    obtain ⟨-, -, rfl⟩ := (Peer.lose_eq_some_iff _ _ _).1 hlose
    have hpasses : life.stage.Passes (.dropping stale) := by
      rw [hlosing]
      exact ⟨rfl, nofun, nofun, Or.inl rfl, nofun, nofun⟩
    refine Turn.still ⟨rfl, rfl, rfl, fun _ => rfl, rfl, rfl, nofun⟩ hpasses
      (fun _ => Or.inl (by rw [hlosing]; rfl)) rfl rfl ?_
    simp [candidates, hlosing, Stage.dialed?]
  case exhaust last exhausted hwaiting hexhaust =>
    obtain ⟨-, rfl⟩ := (Peer.exhaust_eq_some_iff _ _).1 hexhaust
    have hpasses : life.stage.Passes (.leaving last) := by
      rw [hwaiting]
      exact ⟨rfl, nofun, nofun, Or.inl rfl, nofun, nofun⟩
    refine Turn.still ⟨rfl, rfl, rfl, fun _ => rfl, rfl, rfl, fun _ => Or.inr rfl⟩ hpasses nofun rfl
      rfl ?_
    simp [candidates, hwaiting, Stage.dialed?]
  -- the other sections leave the peer as it is
  all_goals
    refine Turn.quiet (.of_peer_eq rfl rfl) ?_ ?_ rfl ?_ ?_
    · constructor <;> simp_all [Stage.isLeaving, Stage.attended?, Stage.isSpent]
    · simp_all [Stage.isAside]
    · simp_all
    · simp_all [candidates, Stage.dialed?]

end Life

end Overlay
