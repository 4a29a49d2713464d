import Overlay.Proofs.Peer.Accounts

/-!
# The supervision of a peer

A supervisor is never stuck, and its search for a line is over within a number
of its own sections that is known in advance, whatever others do meanwhile.  A
line that was left to it is found by then.  When it and all calls that end the
peer have ended, nothing of the peer is open, and nothing ever will be.
-/

namespace Overlay.Life

open Wire

variable {first life next : Life}

/-! ## What stays the same -/

/-- What no section changes: who the peer is, and how it was set up. -/
structure SameSetup (life next : Life) : Prop where
  identity : next.peer.identity = life.peer.identity
  endpoint : next.peer.endpoint = life.peer.endpoint
  direction : next.peer.direction = life.peer.direction
  policy : next.peer.policy = life.peer.policy

theorem SameSetup.slots?_eq (hsame : SameSetup life next) :
    next.peer.slots? = life.peer.slots? := by
  rw [Peer.slots?, Peer.slots?, hsame.direction, hsame.policy]

theorem Supervised.sameSetup (hsupervised : Supervised life next) : SameSetup life next := by
  cases hsupervised
  case stop hpumping cause => cases cause <;> exact ⟨rfl, rfl, rfl, rfl⟩
  case lose hlosing hlose =>
    obtain ⟨-, -, rfl⟩ := (Peer.lose_eq_some_iff _ _ _).1 hlose
    exact ⟨rfl, rfl, rfl, rfl⟩
  case receive hwaiting hhandoff hpick =>
    obtain ⟨-, rfl⟩ := (Peer.pickUp_eq_some_iff _ _).1 hpick
    exact ⟨rfl, rfl, rfl, rfl⟩
  case install hdialed hinstall =>
    obtain ⟨-, rfl⟩ := (Peer.install_eq_some_iff _ _ _).1 hinstall
    exact ⟨rfl, rfl, rfl, rfl⟩
  case overtaken hdialed hinstall hhandoff hpick =>
    obtain ⟨-, rfl⟩ := (Peer.pickUp_eq_some_iff _ _).1 hpick
    exact ⟨rfl, rfl, rfl, rfl⟩
  case exhaust hwaiting hexhaust =>
    obtain ⟨-, rfl⟩ := (Peer.exhaust_eq_some_iff _ _).1 hexhaust
    exact ⟨rfl, rfl, rfl, rfl⟩
  case collect hcollecting hhandoff hpick =>
    obtain ⟨-, rfl⟩ := (Peer.pickUp_eq_some_iff _ _).1 hpick
    exact ⟨rfl, rfl, rfl, rfl⟩
  case tear teardown after line torn htearing hproceed hopen =>
    cases teardown <;> obtain ⟨-, -, rfl⟩ := hproceed <;> exact ⟨rfl, rfl, rfl, rfl⟩
  all_goals exact ⟨rfl, rfl, rfl, rfl⟩

theorem Meanwhile.sameSetup (hmeanwhile : Meanwhile life next) : SameSetup life next := by
  cases hmeanwhile with
  | adopt hfresh hadopt =>
      obtain ⟨-, rfl⟩ := (Peer.adopt_eq_some_iff _ _ _).1 hadopt
      exact ⟨rfl, rfl, rfl, rfl⟩
  | @proceed before behind teardown after line torn hcalls hproceed hopen =>
      cases teardown <;> obtain ⟨-, -, rfl⟩ := hproceed <;> exact ⟨rfl, rfl, rfl, rfl⟩
  | _ => exact ⟨rfl, rfl, rfl, rfl⟩

theorem SameSetup.trans {later : Life} (hfirst : SameSetup life next)
    (hnext : SameSetup next later) : SameSetup life later where
  identity := hnext.identity.trans hfirst.identity
  endpoint := hnext.endpoint.trans hfirst.endpoint
  direction := hnext.direction.trans hfirst.direction
  policy := hnext.policy.trans hfirst.policy

theorem Run.sameSetup {count : Nat} (hrun : Run life count next) : SameSetup life next := by
  induction hrun with
  | refl => exact ⟨rfl, rfl, rfl, rfl⟩
  | supervise hrun hsupervised ih => exact ih.trans hsupervised.sameSetup
  | interpose hrun hmeanwhile ih => exact ih.trans hmeanwhile.sameSetup

/-! ## Progress -/

/-- A supervisor goes on if the slots of its peer can be counted. -/
theorem exists_supervised_of_slots (hslots : ∃ slots, life.peer.slots? = some slots)
    (hgone : life.stage ≠ .gone) : ∃ next, Supervised life next := by
  cases hstage : life.stage with
  | pumping line => exact ⟨_, Supervised.stop hstage IoFault.endOfStream.toError⟩
  | stopped line cause =>
      by_cases hstate : life.peer.state = .disconnected
      · exact ⟨_, Supervised.leave hstage hstate⟩
      · exact ⟨_, Supervised.live hstage hstate⟩
  | parting line cause =>
      cases hclosing : life.peer.closing with
      | true => exact ⟨_, Supervised.part hstage hclosing⟩
      | false => exact ⟨_, Supervised.stay hstage hclosing⟩
  | losing line =>
      cases hlose : life.peer.lose with
      | none => exact ⟨_, Supervised.lost hstage hlose⟩
      | some lost => exact ⟨_, @Supervised.lose life line lost.1 lost.2 hstage hlose⟩
  | dropping stale =>
      obtain ⟨slots, hslots⟩ := hslots
      exact ⟨_, Supervised.drop hstage hslots⟩
  | waiting slots last =>
      cases slots with
      | zero =>
          cases hexhaust : life.peer.exhaust with
          | none => exact ⟨_, Supervised.spared hstage hexhaust⟩
          | some exhausted => exact ⟨_, Supervised.exhaust hstage hexhaust⟩
      | succ slots =>
          cases hdirection : life.peer.direction with
          | inbound => exact ⟨_, Supervised.skip hstage hdirection⟩
          | outbound => exact ⟨_, Supervised.dial hstage hdirection⟩
  | dialing slots last => exact ⟨_, Supervised.missed hstage last⟩
  | dialed slots last line =>
      cases hinstall : life.peer.install line with
      | some installed => exact ⟨_, Supervised.install hstage hinstall⟩
      | none =>
          cases hhandoff : life.peer.handoff with
          | none =>
              have hpick := (Peer.pickUp_eq_none_iff _).2 hhandoff
              exact ⟨_, Supervised.refused hstage hinstall hpick⟩
          | some other =>
              have hpick := Peer.pickUp_of_handoff hhandoff
              exact ⟨_, Supervised.overtaken hstage hinstall hhandoff hpick⟩
  | collecting =>
      cases hhandoff : life.peer.handoff with
      | none => exact ⟨_, Supervised.abandon hstage ((Peer.pickUp_eq_none_iff _).2 hhandoff)⟩
      | some line =>
          exact ⟨_, Supervised.collect hstage hhandoff (Peer.pickUp_of_handoff hhandoff)⟩
  | restored line => exact ⟨_, Supervised.announce hstage⟩
  | leaving cause => exact ⟨_, Supervised.report hstage⟩
  | tearing teardown =>
      cases teardown with
      | done wasLive => exact ⟨_, Supervised.finish hstage⟩
      | _ => exact ⟨_, Supervised.tear hstage rfl nofun⟩
  | gone => exact absurd hstage hgone

theorem exists_supervised (hattempts : life.peer.policy.attempts + 1 < UInt32.size)
    (hgone : life.stage ≠ .gone) : ∃ next, Supervised life next :=
  exists_supervised_of_slots (Peer.exists_slots hattempts) hgone

/-! ## The search for a line -/

/-- How many sections of the supervisor it takes at most until its search is over. -/
def patience (life : Life) : Nat :=
  match life.stage with
  | .dropping _ => 3 * (life.peer.slots?.getD 0) + 3
  | .waiting slots _ => 3 * slots + 2
  | .dialing slots _ => 3 * slots + 4
  | .dialed slots _ _ => 3 * slots + 3
  | .collecting => 1
  | _ => 0

theorem patience_pos (hsearching : life.stage.isSearching = true) : 1 ≤ life.patience := by
  rw [patience]
  cases hstage : life.stage <;> simp_all [Stage.isSearching, Stage.isWaiting]

/-- With each of its sections the supervisor ends the search, or leaves the peer as it is and comes
closer to the end. -/
theorem Supervised.nearer (hsupervised : Supervised life next)
    (hsearching : life.stage.isSearching = true) :
    next.stage.hasSettled = true ∨
      next.stage.isSearching = true ∧ next.peer = life.peer ∧
        next.patience + 1 ≤ life.patience := by
  cases hsupervised
  case drop stale slots hdropping hslots =>
    refine Or.inr ⟨rfl, rfl, ?_⟩
    simp [patience, hdropping, hslots]
  case skip slots last hwaiting _ | dial slots last hwaiting _ =>
    refine Or.inr ⟨rfl, rfl, ?_⟩
    simp only [patience, hwaiting]
    omega
  case missed slots last hdialing _ | mistaken slots last link hdialing _ _ |
      answered slots last link hdialing _ _ =>
    refine Or.inr ⟨rfl, rfl, ?_⟩
    simp only [patience, hdialing]
    omega
  case unopened slots last line hdialed hstate cause =>
    refine Or.inr ⟨rfl, rfl, ?_⟩
    simp only [patience, hdialed]
    omega
  case spared last hwaiting hexhaust =>
    refine Or.inr ⟨rfl, rfl, ?_⟩
    simp [patience, hwaiting]
  case receive | install | overtaken | collect | exhaust => exact Or.inl rfl
  case cancel | refused | abandon => exact Or.inl rfl
  -- the other stages do not look for a line
  all_goals simp_all [Stage.isSearching, Stage.isWaiting]

/-- The calls of others bring the end of a search neither closer nor farther away. -/
theorem Meanwhile.patience_eq (hmeanwhile : Meanwhile life next) :
    next.patience = life.patience := by
  rw [patience, patience, hmeanwhile.stage_eq, hmeanwhile.sameSetup.slots?_eq]

/-- A run has led over the end of a search. -/
def Passes (first life : Life) (count : Nat) : Prop :=
  ∃ sooner rest settled, sooner + rest = count ∧ Run first sooner settled ∧
    settled.stage.hasSettled = true ∧ Run settled rest life

/-- On every way from a search, the search has ended, or the supervisor has come closer to its end
by every section that it went through. -/
theorem Run.nearer {count : Nat} (hrun : Run first count life)
    (hsearching : first.stage.isSearching = true) :
    Passes first life count ∨
      life.stage.isSearching = true ∧ life.patience + count ≤ first.patience := by
  induction hrun with
  | refl => exact Or.inr ⟨hsearching, Nat.le_refl _⟩
  | @supervise count life next hrun hsupervised ih =>
      rcases ih with ⟨sooner, rest, settled, rfl, hbefore, hsettled, hafter⟩ | ⟨hstill, hle⟩
      · exact Or.inl
          ⟨sooner, rest + 1, settled, rfl, hbefore, hsettled, hafter.supervise hsupervised⟩
      · rcases hsupervised.nearer hstill with hsettled | ⟨hstill, -, hcloser⟩
        · exact Or.inl ⟨count + 1, 0, next, rfl, hrun.supervise hsupervised, hsettled, .refl⟩
        · exact Or.inr ⟨hstill, by omega⟩
  | interpose hrun hmeanwhile ih =>
      rw [hmeanwhile.stage_eq, hmeanwhile.patience_eq]
      refine ih.imp_left fun ⟨sooner, rest, settled, hcount, hbefore, hsettled, hafter⟩ => ?_
      exact ⟨sooner, rest, settled, hcount, hbefore, hsettled, hafter.interpose hmeanwhile⟩

/-- A search is over after so many sections of the supervisor. -/
theorem Run.passes {count : Nat} (hrun : Run first count life)
    (hsearching : first.stage.isSearching = true) (hcount : first.patience ≤ count) :
    Passes first life count := by
  rcases hrun.nearer hsearching with hpasses | ⟨hstill, hle⟩
  · exact hpasses
  · have hpos := patience_pos hstill
    omega

/-- A peer does not wait for a line any more when the search is over. -/
theorem Phase.state_of_settled (hphase : life.Phase) (hsettled : life.stage.hasSettled = true) :
    life.peer.state ≠ .reconnecting := by
  intro hwaits
  cases hphase with
  | waiting _ _ _ _ hstage =>
      cases hother : life.stage <;> simp_all [Stage.isWaiting, Stage.hasSettled]
  | attended hstate | adopted hstate | ended hstate => cases hstate.symm.trans hwaits

/-! ## Lines that were left -/

/-- A line was left to the supervisor, and no ending has begun. -/
structure IsLeft (life : Life) (line : Nat) : Prop where
  state : life.peer.state = .connected
  handoff : life.peer.handoff = some line

theorem IsLeft.isSearching {line : Nat} (hleft : life.IsLeft line) (hphase : life.Phase) :
    life.stage.isSearching = true ∧ life.line? = some line := by
  cases hphase with
  | attended hstate hsession hhandoff =>
      rw [hleft.handoff] at hhandoff
      exact absurd hhandoff (Option.some_ne_none line)
  | waiting hstate => exact absurd (hstate.symm.trans hleft.state) (by decide)
  | adopted hstate hsession hhandoff hcancelled hstage =>
      refine ⟨hstage, ?_⟩
      rw [line?, hsession]
      exact hhandoff.symm.trans hleft.handoff
  | ended hstate => exact absurd (hstate.symm.trans hleft.state) (by decide)

/-- With each of its sections the supervisor finds the line that was left, or comes closer to it. -/
theorem Supervised.approach (hsupervised : Supervised life next) {line : Nat}
    (hleft : life.IsLeft line) (hphase : life.Phase) :
    line ∈ next.resumed ∨ next.IsLeft line ∧ next.patience + 1 ≤ life.patience := by
  have hsearching := (hleft.isSearching hphase).1
  have hcancelled : life.peer.cancelled = false := by
    cases hphase with
    | attended _ _ _ hcancelled | waiting _ _ _ hcancelled | adopted _ _ _ hcancelled =>
        exact hcancelled
    | ended hstate => exact absurd (hstate.symm.trans hleft.state) nofun
  rcases hsupervised.nearer hsearching with hsettled | ⟨-, hpeer, hcloser⟩
  · obtain ⟨hstate, hhandoff⟩ := hleft
    have hfound {other : Nat} (hother : life.peer.handoff = some other) : other = line :=
      Option.some.inj (hother.symm.trans hhandoff)
    have hstays : life.peer.state ≠ .reconnecting := by
      rw [hstate]
      exact nofun
    cases hsupervised
    case receive slots last other picked hwaiting hother hpick =>
      exact Or.inl (by simp [hfound hother])
    case install slots last other installed hdialed hinstall =>
      exact absurd ((Peer.install_eq_some_iff _ _ _).1 hinstall).1 hstays
    case overtaken slots last other found picked hdialed hinstall hother hpick =>
      exact Or.inl (by simp [hfound hother])
    case refused slots last other hdialed hinstall hpick =>
      exact absurd (hhandoff.symm.trans ((Peer.pickUp_eq_none_iff _).1 hpick)) nofun
    case exhaust last exhausted hwaiting hexhaust =>
      exact absurd ((Peer.exhaust_eq_some_iff _ _).1 hexhaust).1 hstays
    case collect other picked hcollecting hother hpick =>
      exact Or.inl (by simp [hfound hother])
    case abandon hcollecting hpick =>
      exact absurd (hhandoff.symm.trans ((Peer.pickUp_eq_none_iff _).1 hpick)) nofun
    -- nobody ended the waiting, and the other sections do not end a search
    all_goals simp_all [Stage.hasSettled, Stage.isSearching, Stage.isWaiting]
  · exact Or.inr ⟨⟨hpeer ▸ hleft.state, hpeer ▸ hleft.handoff⟩, hcloser⟩

/-- The calls of others leave a line to the supervisor, or end the peer. -/
theorem Meanwhile.approach (hmeanwhile : Meanwhile life next) {line : Nat}
    (hleft : life.IsLeft line) (hmarked : life.Marked) :
    next.peer.state = .disconnected ∨ next.IsLeft line ∧ next.patience = life.patience := by
  obtain ⟨hstate, hhandoff⟩ := hleft
  cases hmeanwhile with
  | adopt hfresh hadopt =>
      have hwaits := ((Peer.adopt_eq_some_iff _ _ _).1 hadopt).1
      exact absurd (hstate.symm.trans hwaits) nofun
  | proceed hcalls hproceed hopen =>
      refine Or.inl (Teardown.proceed_state hproceed fun hne => hmarked _ ?_ hne).1
      rw [teardowns, hcalls]
      simp
  | _ => exact Or.inr ⟨⟨hstate, hhandoff⟩, rfl⟩

theorem Supervised.resumed_mono (hsupervised : Supervised life next) {line : Nat}
    (hmem : line ∈ life.resumed) : line ∈ next.resumed := by
  cases hsupervised <;> first | exact hmem | exact List.mem_cons_of_mem _ hmem

theorem Meanwhile.resumed_eq (hmeanwhile : Meanwhile life next) : next.resumed = life.resumed := by
  cases hmeanwhile <;> rfl

/-- On every way from a life in which a line was left, the supervisor finds it, or the peer is
ended, or the supervisor has come closer by every section that it went through. -/
theorem Run.approach {count : Nat} (hrun : Run life count next) (hsound : life.Sound) {line : Nat}
    (hleft : life.IsLeft line) :
    line ∈ next.resumed ∨ next.peer.state = .disconnected ∨
      next.IsLeft line ∧ next.patience + count ≤ life.patience := by
  induction hrun with
  | refl => exact Or.inr (Or.inr ⟨hleft, Nat.le_refl _⟩)
  | supervise hrun hsupervised ih =>
      have hbefore := hrun.sound hsound
      rcases ih with hresumed | hstate | ⟨hstill, hle⟩
      · exact Or.inl (hsupervised.resumed_mono hresumed)
      · exact Or.inr (Or.inl (hsupervised.state_disconnected hstate))
      · rcases hsupervised.approach hstill hbefore.phase with hresumed | ⟨hstill, hcloser⟩
        · exact Or.inl hresumed
        · exact Or.inr (Or.inr ⟨hstill, by omega⟩)
  | interpose hrun hmeanwhile ih =>
      have hbefore := hrun.sound hsound
      rcases ih with hresumed | hstate | ⟨hstill, hle⟩
      · exact Or.inl (by rwa [hmeanwhile.resumed_eq])
      · exact Or.inr (Or.inl (hmeanwhile.state_disconnected hstate))
      · rcases hmeanwhile.approach hstill hbefore.marked with hstate | ⟨hstill, hsame⟩
        · exact Or.inr (Or.inl hstate)
        · exact Or.inr (Or.inr ⟨hstill, by omega⟩)

/-- A line that was left is found within so many sections of the supervisor, unless the peer is
ended. -/
theorem Run.resumed {count : Nat} (hrun : Run life count next) (hsound : life.Sound) {line : Nat}
    (hleft : life.IsLeft line) (hcount : life.patience ≤ count) :
    line ∈ next.resumed ∨ next.peer.state = .disconnected := by
  rcases hrun.approach hsound hleft with hresumed | hstate | ⟨hstill, hle⟩
  · exact Or.inl hresumed
  · exact Or.inr hstate
  · have hpos := patience_pos (hstill.isSearching (hrun.sound hsound).phase).1
    omega

/-! ## The end -/

/-- A supervisor that has ended leaves an ended peer. -/
theorem Phase.state_of_gone (hphase : life.Phase) (hgone : life.stage = .gone) :
    life.peer.state = .disconnected := by
  cases hphase with
  | attended _ _ _ _ hstage => simp [hgone, Stage.attended?, Stage.isLeaving] at hstage
  | waiting _ _ _ _ hstage => simp [hgone, Stage.isWaiting] at hstage
  | adopted _ _ _ _ hstage => simp [hgone, Stage.isSearching, Stage.isWaiting] at hstage
  | ended hstate => exact hstate

/-- The supervisor and all calls that end the peer have ended. -/
structure IsOver (life : Life) : Prop where
  gone : life.stage = .gone
  returned : ∀ call ∈ life.calls, ∃ wasLive, call = .done wasLive

/-- A peer without a session whose supervisor has ended has no line open. -/
theorem Accounts.all_shut (haccounts : life.Accounts) (hgone : life.stage = .gone)
    (hsession : life.peer.session = none) : ∀ line ∈ life.offered, line ∈ life.shut := by
  intro line hmem
  have hbalance := haccounts.balance line
  have hpos := List.count_pos_iff.2 hmem
  rw [line?, hsession, hgone] at hbalance
  simp only [Option.map_none, Stage.inHand?, Option.toList_none, List.count_nil] at hbalance
  exact List.count_pos_iff.1 (by omega)

theorem IsOver.session_eq_none (hover : life.IsOver) (hsound : life.Sound) :
    life.peer.session = none := by
  by_cases hhas : life.peer.session = none
  · exact hhas
  · have hstate := hsound.phase.state_of_gone hover.gone
    obtain ⟨teardown, hmem, hpending⟩ := hsound.settled.pending hstate hhas
    rw [teardowns, hover.gone] at hmem
    obtain ⟨wasLive, rfl⟩ := hover.returned teardown hmem
    exact absurd hpending Bool.false_ne_true

theorem not_supervised_of_gone (hgone : life.stage = .gone) : ¬ Supervised life next := by
  intro hsupervised
  cases hsupervised <;> simp_all

theorem Meanwhile.session_eq_none (hmeanwhile : Meanwhile life next)
    (hstate : life.peer.state = .disconnected) (hsession : life.peer.session = none) :
    next.peer.session = none := by
  cases hmeanwhile with
  | traffic hhas hline => exact absurd (hhas.symm.trans hsession) nofun
  | adopt hfresh hadopt =>
      have hwaits := ((Peer.adopt_eq_some_iff _ _ _).1 hadopt).1
      exact absurd (hstate.symm.trans hwaits) nofun
  | proceed hcalls hproceed hopen =>
      rcases proceed_line hproceed with ⟨-, hsame⟩ | ⟨-, hnone⟩
      · exact hsame.trans hsession
      · exact hnone
  | _ => exact hsession

/-- Once all have ended, the peer never has a session again, and every line that it is given is
closed. -/
theorem IsOver.forever (hover : life.IsOver) (hsound : life.Sound) {count : Nat}
    (hrun : Run life count next) :
    next.peer.session = none ∧ ∀ line ∈ next.offered, line ∈ next.shut := by
  have hends : next.stage = .gone ∧ next.peer.session = none := by
    induction hrun with
    | refl => exact ⟨hover.gone, hover.session_eq_none hsound⟩
    | supervise hrun hsupervised ih => exact absurd hsupervised (not_supervised_of_gone ih.1)
    | interpose hrun hmeanwhile ih =>
        have hstate := (hrun.sound hsound).phase.state_of_gone ih.1
        refine ⟨?_, hmeanwhile.session_eq_none hstate ih.2⟩
        cases hmeanwhile <;> exact ih.1
  exact ⟨hends.2, (hrun.sound hsound).accounts.all_shut hends.1 hends.2⟩

end Overlay.Life
