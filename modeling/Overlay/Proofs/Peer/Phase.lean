import Overlay.Proofs.Peer.Life

/-!
# The phases of a life

A peer that is not ended is in one of three phases.  It is attended: its
supervisor is at its session.  It waits: it has no session, nothing was left,
and its supervisor looks for a line.  Or it was adopted: it has a session whose
line was left to its supervisor, which still looks for one and will find it.
An ended peer stays ended.
-/

namespace Overlay

namespace Teardown

/-- A section of an ending leaves an ended peer, if it is the first or the first has been. -/
theorem proceed_state {teardown after : Teardown} {peer next : Peer} {line : Option Nat}
    (hproceed : teardown.proceed peer = (after, line, next))
    (hmarked : teardown ≠ .marking → peer.state = .disconnected) :
    next.state = .disconnected ∧ after ≠ .marking := by
  cases teardown with
  | marking =>
      obtain ⟨rfl, -, rfl⟩ := hproceed
      exact ⟨rfl, nofun⟩
  | cancelling wasLive =>
      obtain ⟨rfl, -, rfl⟩ := hproceed
      exact ⟨hmarked nofun, nofun⟩
  | closing wasLive =>
      obtain ⟨rfl, -, rfl⟩ := hproceed
      exact ⟨hmarked nofun, nofun⟩
  | detaching wasLive =>
      obtain ⟨rfl, -, rfl⟩ := hproceed
      exact ⟨hmarked nofun, nofun⟩
  | done wasLive =>
      obtain ⟨rfl, -, rfl⟩ := hproceed
      exact ⟨hmarked nofun, nofun⟩

end Teardown

namespace Life

/-- The phases of a life. -/
inductive Phase (life : Life) : Prop
  | attended {session : Session} (hstate : life.peer.state = .connected)
      (hsession : life.peer.session = some session) (hhandoff : life.peer.handoff = none)
      (hcancelled : life.peer.cancelled = false)
      (hstage : life.stage.attended? = some session.line ∨ life.stage.isLeaving = true)
  | waiting (hstate : life.peer.state = .reconnecting) (hsession : life.peer.session = none)
      (hhandoff : life.peer.handoff = none) (hcancelled : life.peer.cancelled = false)
      (hstage : life.stage.isWaiting = true)
  | adopted {session : Session} (hstate : life.peer.state = .connected)
      (hsession : life.peer.session = some session)
      (hhandoff : life.peer.handoff = some session.line) (hcancelled : life.peer.cancelled = false)
      (hstage : life.stage.isSearching = true)
  | ended (hstate : life.peer.state = .disconnected)

/-- The endings of a peer: the one of its supervisor and those of the calls. -/
def teardowns (life : Life) : List Teardown :=
  life.stage.teardown?.toList ++ life.calls

/-- Once an ending has begun, the peer is ended. -/
def Marked (life : Life) : Prop :=
  ∀ teardown ∈ life.teardowns, teardown ≠ .marking → life.peer.state = .disconnected

theorem phase_start (id : Nat) (link : Link) (policy : LinkPolicy) :
    (start id link policy).Phase :=
  Phase.attended rfl rfl rfl rfl (Or.inl rfl)

theorem marked_start (id : Nat) (link : Link) (policy : LinkPolicy) :
    (start id link policy).Marked :=
  fun _ hmem => absurd hmem List.not_mem_nil

variable {life next : Life}

/-- No section revives an ended peer. -/
theorem Supervised.state_disconnected (hsupervised : Supervised life next)
    (hstate : life.peer.state = .disconnected) : next.peer.state = .disconnected := by
  cases hsupervised with
  | stop hstage cause => cases cause <;> exact hstate
  | lose hstage hlose => exact absurd hstate ((Peer.lose_eq_some_iff _ _ _).1 hlose).1
  | receive hstage hhandoff hpick =>
      obtain ⟨-, rfl⟩ := (Peer.pickUp_eq_some_iff _ _).1 hpick
      exact hstate
  | install hstage hinstall =>
      have hwaits := ((Peer.install_eq_some_iff _ _ _).1 hinstall).1
      exact absurd (hstate.symm.trans hwaits) nofun
  | overtaken hstage hinstall hhandoff hpick =>
      obtain ⟨-, rfl⟩ := (Peer.pickUp_eq_some_iff _ _).1 hpick
      exact hstate
  | exhaust hstage hexhaust =>
      obtain ⟨-, rfl⟩ := (Peer.exhaust_eq_some_iff _ _).1 hexhaust
      rfl
  | collect hstage hhandoff hpick =>
      obtain ⟨-, rfl⟩ := (Peer.pickUp_eq_some_iff _ _).1 hpick
      exact hstate
  | tear hstage hproceed hopen => exact (Teardown.proceed_state hproceed fun _ => hstate).1
  | _ => exact hstate

/-- The calls of others do not move the supervisor. -/
theorem Meanwhile.stage_eq (hmeanwhile : Meanwhile life next) : next.stage = life.stage := by
  cases hmeanwhile <;> rfl

theorem Meanwhile.state_disconnected (hmeanwhile : Meanwhile life next)
    (hstate : life.peer.state = .disconnected) : next.peer.state = .disconnected := by
  cases hmeanwhile with
  | adopt hfresh hadopt =>
      have hwaits := ((Peer.adopt_eq_some_iff _ _ _).1 hadopt).1
      exact absurd (hstate.symm.trans hwaits) nofun
  | proceed hcalls hproceed hopen =>
      exact (Teardown.proceed_state hproceed fun _ => hstate).1
  | _ => exact hstate

/-- The sections of the supervisor lead from the attended phase into it or into the others. -/
theorem Supervised.of_attended (hsupervised : Supervised life next) {session : Session}
    (hstate : life.peer.state = .connected) (hsession : life.peer.session = some session)
    (hhandoff : life.peer.handoff = none) (hcancelled : life.peer.cancelled = false)
    (hstage : life.stage.attended? = some session.line ∨ life.stage.isLeaving = true) :
    next.Phase := by
  cases hsupervised
  case hear => exact Phase.attended hstate hsession hhandoff hcancelled hstage
  case stop line hpumping cause =>
    rw [hpumping] at hstage
    cases cause <;> exact Phase.attended hstate hsession hhandoff hcancelled hstage
  case lose line stale lost hlosing hlose =>
    obtain ⟨-, -, rfl⟩ := (Peer.lose_eq_some_iff _ _ _).1 hlose
    exact Phase.waiting rfl rfl hhandoff hcancelled rfl
  case tear teardown after line torn htearing hproceed hopen =>
    refine Phase.ended (Teardown.proceed_state hproceed fun hne => ?_).1
    rw [htearing] at hstage
    cases teardown <;> simp_all [Stage.attended?, Stage.isLeaving]
  case live line cause hstopped hlive =>
    rw [hstopped] at hstage
    exact Phase.attended hstate hsession hhandoff hcancelled hstage
  case part line cause hparting hclosing =>
    exact Phase.attended hstate hsession hhandoff hcancelled (Or.inr rfl)
  case stay line cause hparting hclosing =>
    rw [hparting] at hstage
    exact Phase.attended hstate hsession hhandoff hcancelled hstage
  case announce line hrestored =>
    rw [hrestored] at hstage
    exact Phase.attended hstate hsession hhandoff hcancelled hstage
  case report cause hleaving =>
    exact Phase.attended hstate hsession hhandoff hcancelled (Or.inr rfl)
  case leave line cause hstopped hended => exact absurd (hstate.symm.trans hended) nofun
  case lost line hlosing hlose =>
    exact absurd (hstate.symm.trans ((Peer.lose_eq_none_iff _).1 hlose)) nofun
  -- the other sections belong to a supervisor that looks for a line or has ended the peer
  all_goals simp_all [Stage.attended?, Stage.isLeaving]

/-- The sections of the supervisor lead from the waiting phase into it, or to a session. -/
theorem Supervised.of_waiting (hsupervised : Supervised life next)
    (hstate : life.peer.state = .reconnecting) (hsession : life.peer.session = none)
    (hhandoff : life.peer.handoff = none) (hcancelled : life.peer.cancelled = false)
    (hstage : life.stage.isWaiting = true) : next.Phase := by
  cases hsupervised
  case drop => exact Phase.waiting hstate hsession hhandoff hcancelled rfl
  case skip => exact Phase.waiting hstate hsession hhandoff hcancelled rfl
  case dial => exact Phase.waiting hstate hsession hhandoff hcancelled rfl
  case missed => exact Phase.waiting hstate hsession hhandoff hcancelled rfl
  case mistaken => exact Phase.waiting hstate hsession hhandoff hcancelled rfl
  case answered => exact Phase.waiting hstate hsession hhandoff hcancelled rfl
  case unopened => exact Phase.waiting hstate hsession hhandoff hcancelled rfl
  case install slots last line installed hdialed hinstall =>
    obtain ⟨-, rfl⟩ := (Peer.install_eq_some_iff _ _ _).1 hinstall
    exact Phase.attended rfl rfl hhandoff hcancelled (Or.inl rfl)
  case overtaken hdialed hinstall hleft hpick =>
    exact absurd hstate ((Peer.install_eq_none_iff _ _).1 hinstall)
  case refused hdialed hinstall hpick =>
    exact absurd hstate ((Peer.install_eq_none_iff _ _).1 hinstall)
  case exhaust last exhausted hwaiting hexhaust =>
    obtain ⟨-, rfl⟩ := (Peer.exhaust_eq_some_iff _ _).1 hexhaust
    exact Phase.ended rfl
  case spared last hwaiting hexhaust =>
    exact absurd hstate ((Peer.exhaust_eq_none_iff _).1 hexhaust)
  -- nothing was left, nobody ended the waiting, and the other stages do not wait
  all_goals simp_all [Stage.isWaiting]

/-- The sections of the supervisor lead from the adopted phase into it, or to the line that was
left. -/
theorem Supervised.of_adopted (hsupervised : Supervised life next) {session : Session}
    (hstate : life.peer.state = .connected) (hsession : life.peer.session = some session)
    (hhandoff : life.peer.handoff = some session.line) (hcancelled : life.peer.cancelled = false)
    (hstage : life.stage.isSearching = true) : next.Phase := by
  have hpicked {line : Nat} {picked : Peer} (hleft : life.peer.handoff = some line)
      (hpick : life.peer.pickUp = some picked) :
      line = session.line ∧ picked = { life.peer with handoff := none } :=
    ⟨Option.some.inj (hleft.symm.trans hhandoff), ((Peer.pickUp_eq_some_iff _ _).1 hpick).2⟩
  cases hsupervised
  case drop => exact Phase.adopted hstate hsession hhandoff hcancelled rfl
  case skip => exact Phase.adopted hstate hsession hhandoff hcancelled rfl
  case dial => exact Phase.adopted hstate hsession hhandoff hcancelled rfl
  case missed => exact Phase.adopted hstate hsession hhandoff hcancelled rfl
  case mistaken => exact Phase.adopted hstate hsession hhandoff hcancelled rfl
  case answered => exact Phase.adopted hstate hsession hhandoff hcancelled rfl
  case unopened => exact Phase.adopted hstate hsession hhandoff hcancelled rfl
  case spared => exact Phase.adopted hstate hsession hhandoff hcancelled rfl
  case receive hwaiting hleft hpick =>
    obtain ⟨rfl, rfl⟩ := hpicked hleft hpick
    exact Phase.attended hstate hsession rfl hcancelled (Or.inl rfl)
  case overtaken hdialed hinstall hleft hpick =>
    obtain ⟨rfl, rfl⟩ := hpicked hleft hpick
    exact Phase.attended hstate hsession rfl hcancelled (Or.inl rfl)
  case collect hcollecting hleft hpick =>
    obtain ⟨rfl, rfl⟩ := hpicked hleft hpick
    exact Phase.attended hstate hsession rfl hcancelled (Or.inl rfl)
  case install hdialed hinstall =>
    have hwaits := ((Peer.install_eq_some_iff _ _ _).1 hinstall).1
    exact absurd (hstate.symm.trans hwaits) nofun
  case refused hdialed hinstall hpick =>
    have hnone := (Peer.pickUp_eq_none_iff _).1 hpick
    exact absurd (hhandoff.symm.trans hnone) nofun
  case exhaust hwaiting hexhaust =>
    have hwaits := ((Peer.exhaust_eq_some_iff _ _).1 hexhaust).1
    exact absurd (hstate.symm.trans hwaits) nofun
  case abandon hcollecting hpick =>
    have hnone := (Peer.pickUp_eq_none_iff _).1 hpick
    exact absurd (hhandoff.symm.trans hnone) nofun
  -- nobody ended the waiting, and the other stages do not look for a line
  all_goals simp_all [Stage.isSearching, Stage.isWaiting]

/-- The phase is one of the peer and its supervisor. -/
theorem Phase.congr (hphase : life.Phase) (hpeer : next.peer = life.peer)
    (hstage : next.stage = life.stage) : next.Phase := by
  cases hphase with
  | attended hstate hsession hhandoff hcancelled hattended =>
      rw [← hpeer] at hstate hsession hhandoff hcancelled
      rw [← hstage] at hattended
      exact Phase.attended hstate hsession hhandoff hcancelled hattended
  | waiting hstate hsession hhandoff hcancelled hwaiting =>
      rw [← hpeer] at hstate hsession hhandoff hcancelled
      rw [← hstage] at hwaiting
      exact Phase.waiting hstate hsession hhandoff hcancelled hwaiting
  | adopted hstate hsession hhandoff hcancelled hsearching =>
      rw [← hpeer] at hstate hsession hhandoff hcancelled
      rw [← hstage] at hsearching
      exact Phase.adopted hstate hsession hhandoff hcancelled hsearching
  | ended hstate =>
      rw [← hpeer] at hstate
      exact Phase.ended hstate

theorem Supervised.phase (hsupervised : Supervised life next) (hphase : life.Phase) :
    next.Phase := by
  cases hphase with
  | attended hstate hsession hhandoff hcancelled hstage =>
      exact hsupervised.of_attended hstate hsession hhandoff hcancelled hstage
  | waiting hstate hsession hhandoff hcancelled hstage =>
      exact hsupervised.of_waiting hstate hsession hhandoff hcancelled hstage
  | adopted hstate hsession hhandoff hcancelled hstage =>
      exact hsupervised.of_adopted hstate hsession hhandoff hcancelled hstage
  | ended hstate => exact Phase.ended (hsupervised.state_disconnected hstate)

/-- The calls of others leave a life in its phase, but for a line that a waiting peer takes and the
end of the peer. -/
theorem Meanwhile.phase (hmeanwhile : Meanwhile life next) (hphase : life.Phase)
    (hmarked : life.Marked) : next.Phase := by
  cases hmeanwhile with
  | @traffic before after hsession hline =>
      cases hphase with
      | @attended session hstate hold hhandoff hcancelled hstage =>
          obtain rfl : before = session := Option.some.inj (hsession.symm.trans hold)
          rw [← hline] at hstage
          exact Phase.attended hstate rfl hhandoff hcancelled hstage
      | waiting hstate hold hhandoff hcancelled hstage =>
          exact absurd (hsession.symm.trans hold) nofun
      | @adopted session hstate hold hhandoff hcancelled hstage =>
          obtain rfl : before = session := Option.some.inj (hsession.symm.trans hold)
          rw [← hline] at hhandoff
          exact Phase.adopted hstate rfl hhandoff hcancelled hstage
      | ended hstate => exact Phase.ended hstate
  | @adopt line adopted hfresh hadopt =>
      obtain ⟨hwaits, rfl⟩ := (Peer.adopt_eq_some_iff _ _ _).1 hadopt
      cases hphase with
      | waiting hstate hsession hhandoff hcancelled hstage =>
          have hleft : (if life.peer.handoff.isSome then life.peer.handoff else some line) =
              some line := by
            rw [hhandoff]
            rfl
          exact Phase.adopted rfl rfl hleft hcancelled (by simp [Stage.isSearching, hstage])
      | attended hstate | adopted hstate | ended hstate =>
          exact absurd (hstate.symm.trans hwaits) nofun
  | decline hfresh hadopt => exact hphase.congr rfl rfl
  | spoil hfresh hstate => exact hphase.congr rfl rfl
  | call => exact hphase.congr rfl rfl
  | proceed hcalls hproceed hopen =>
      refine Phase.ended (Teardown.proceed_state hproceed fun hne => ?_).1
      refine hmarked _ ?_ hne
      rw [teardowns, hcalls]
      simp

theorem Supervised.calls_eq (hsupervised : Supervised life next) : next.calls = life.calls := by
  cases hsupervised <;> rfl

theorem Supervised.marked (hsupervised : Supervised life next) (hmarked : life.Marked) :
    next.Marked := by
  intro teardown hmem hne
  rcases List.mem_append.1 hmem with hown | hcall
  · -- the ending of the supervisor itself
    cases hsupervised
    case hear line hpumping message => simp [hpumping, Stage.teardown?] at hown
    case report cause hleaving =>
      obtain rfl : teardown = .marking := by simpa [Stage.teardown?] using hown
      exact absurd rfl hne
    case tear before after line torn htearing hproceed hopen =>
      refine (Teardown.proceed_state hproceed fun hbefore => hmarked before ?_ hbefore).1
      simp [teardowns, htearing, Stage.teardown?]
    all_goals simp [Stage.teardown?] at hown
  · rw [hsupervised.calls_eq] at hcall
    have hstate := hmarked teardown (List.mem_append_right _ hcall) hne
    exact hsupervised.state_disconnected hstate

theorem Meanwhile.marked (hmeanwhile : Meanwhile life next) (hmarked : life.Marked) :
    next.Marked := by
  cases hmeanwhile with
  | traffic hsession hline => exact hmarked
  | adopt hfresh hadopt =>
      intro teardown hmem hne
      have hwaits := ((Peer.adopt_eq_some_iff _ _ _).1 hadopt).1
      exact absurd ((hmarked teardown hmem hne).symm.trans hwaits) nofun
  | decline hfresh hadopt => exact hmarked
  | spoil hfresh hstate => exact hmarked
  | call =>
      intro teardown hmem hne
      rcases List.mem_append.1 hmem with hown | hcall
      · exact hmarked teardown (List.mem_append_left _ hown) hne
      · rcases List.mem_cons.1 hcall with rfl | hold
        · exact absurd rfl hne
        · exact hmarked teardown (List.mem_append_right _ hold) hne
  | proceed hcalls hproceed hopen =>
      intro teardown hmem hne
      refine (Teardown.proceed_state hproceed fun hbefore => hmarked _ ?_ hbefore).1
      rw [teardowns, hcalls]
      simp

end Life

end Overlay
