import Overlay.Proofs.Peer.Supervision

/-!
# The lifecycle of a peer

What a peer promises at every point of its life, in whatever order its
supervisor, the lines that it is offered and the calls that end it go on.
-/

namespace Overlay.Life

variable {life next : Life}

/-! ## Sessions -/

/-- A section of an ending installs no session. -/
theorem proceed_installs_none {teardown after : Teardown} {peer torn : Peer} {closed : Option Nat}
    (hproceed : teardown.proceed peer = (after, closed, torn)) {line : Nat}
    (hline : torn.session.map (·.line) = some line) : peer.session.map (·.line) = some line := by
  rcases proceed_line hproceed with ⟨-, hsame⟩ | ⟨-, hnone⟩
  · rwa [hsame] at hline
  · rw [hnone] at hline
    exact absurd hline nofun

theorem Supervised.installed (hsupervised : Supervised life next) {line : Nat}
    (hline : next.line? = some line) (hnew : life.line? ≠ some line) :
    life.peer.state = .reconnecting ∧ next.peer.state = .connected := by
  cases hsupervised
  case stop hpumping cause => cases cause <;> exact absurd hline hnew
  case lose hlosing hlose =>
    obtain ⟨-, -, rfl⟩ := (Peer.lose_eq_some_iff _ _ _).1 hlose
    exact absurd hline nofun
  case receive hwaiting hhandoff hpick =>
    obtain ⟨-, rfl⟩ := (Peer.pickUp_eq_some_iff _ _).1 hpick
    exact absurd hline hnew
  case overtaken hdialed hinstall hhandoff hpick =>
    obtain ⟨-, rfl⟩ := (Peer.pickUp_eq_some_iff _ _).1 hpick
    exact absurd hline hnew
  case collect hcollecting hhandoff hpick =>
    obtain ⟨-, rfl⟩ := (Peer.pickUp_eq_some_iff _ _).1 hpick
    exact absurd hline hnew
  case install hdialed hinstall =>
    obtain ⟨hwaits, rfl⟩ := (Peer.install_eq_some_iff _ _ _).1 hinstall
    exact ⟨hwaits, rfl⟩
  case exhaust hwaiting hexhaust =>
    obtain ⟨-, rfl⟩ := (Peer.exhaust_eq_some_iff _ _).1 hexhaust
    exact absurd hline hnew
  case tear htearing hproceed hopen => exact absurd (proceed_installs_none hproceed hline) hnew
  all_goals exact absurd hline hnew

theorem Meanwhile.installed (hmeanwhile : Meanwhile life next) {line : Nat}
    (hline : next.line? = some line) (hnew : life.line? ≠ some line) :
    life.peer.state = .reconnecting ∧ next.peer.state = .connected := by
  cases hmeanwhile with
  | traffic hsession hsame =>
      rw [line?, hsession, Option.map_some, ← hsame] at hnew
      exact absurd hline hnew
  | adopt hfresh hadopt =>
      obtain ⟨hwaits, rfl⟩ := (Peer.adopt_eq_some_iff _ _ _).1 hadopt
      exact ⟨hwaits, rfl⟩
  | proceed hcalls hproceed hopen => exact absurd (proceed_installs_none hproceed hline) hnew
  | _ => exact absurd hline hnew

/-- Every line that was given to a peer and is not closed is that of its session, or its supervisor
has it in hand. -/
theorem Accounts.place_of_open (haccounts : life.Accounts) {line : Nat}
    (hoffered : line ∈ life.offered) (hopen : line ∉ life.shut) :
    life.line? = some line ∨ life.stage.inHand? = some line := by
  have hbalance := haccounts.balance line
  have hpos := List.count_pos_iff.2 hoffered
  rw [List.count_eq_zero_of_not_mem hopen] at hbalance
  by_cases hsession : life.line? = some line
  · exact Or.inl hsession
  · refine Or.inr ?_
    have hzero : life.line?.toList.count line = 0 :=
      List.count_eq_zero_of_not_mem fun hmem => hsession (Option.mem_toList.1 hmem)
    rw [hzero] at hbalance
    exact Option.mem_toList.1 (List.count_pos_iff.1 (by omega))

/-- The line of a session was given to the peer and is not closed. -/
theorem Accounts.session_open (haccounts : life.Accounts) {line : Nat}
    (hline : life.line? = some line) : line ∈ life.offered ∧ line ∉ life.shut := by
  have hbalance := haccounts.balance line
  have honce := haccounts.once line
  rw [hline, Option.toList_some, List.count_singleton_self] at hbalance
  refine ⟨List.count_pos_iff.1 (by omega), fun hshut => ?_⟩
  have hpos := List.count_pos_iff.2 hshut
  omega

/-! ## Lines that are offered -/

/-- A call that offers a line to a peer that does not wait for one closes it. -/
theorem Meanwhile.declined (hmeanwhile : Meanwhile life next)
    (hstate : life.peer.state ≠ .reconnecting) {line : Nat} (hoffered : line ∈ next.offered)
    (hnew : line ∉ life.offered) : line ∈ next.shut := by
  cases hmeanwhile with
  | adopt hfresh hadopt => exact absurd ((Peer.adopt_eq_some_iff _ _ _).1 hadopt).1 hstate
  | decline hfresh hadopt =>
      rcases List.mem_cons.1 hoffered with rfl | hold
      · exact List.mem_cons_self
      · exact absurd hold hnew
  | spoil hfresh hwaits => exact absurd hwaits hstate
  | _ => exact absurd hoffered hnew

/-- A supervisor closes the line that it dialed if the peer does not wait for one. -/
theorem Supervised.declined (hsupervised : Supervised life next)
    (hstate : life.peer.state ≠ .reconnecting) {slots line : Nat} {last : NetError}
    (hdialed : life.stage = .dialed slots last line) : line ∈ next.shut := by
  cases hsupervised
  case install hstage hinstall =>
    exact absurd ((Peer.install_eq_some_iff _ _ _).1 hinstall).1 hstate
  all_goals simp_all

/-- What a call leaves to the supervisor finds the place empty. -/
theorem Meanwhile.adopted (hmeanwhile : Meanwhile life next) (hphase : life.Phase) {line : Nat}
    (hline : next.line? = some line) (hnew : life.line? ≠ some line) :
    life.peer.handoff = none ∧ next.IsLeft line := by
  obtain ⟨hwaits, hstate⟩ := hmeanwhile.installed hline hnew
  have hempty := hphase.handoff_eq_none hwaits
  refine ⟨hempty, hstate, ?_⟩
  cases hmeanwhile with
  | traffic hsession hsame =>
      exact absurd (hsession.symm.trans (hphase.session_eq_none hwaits)) nofun
  | adopt hfresh hadopt =>
      obtain ⟨-, rfl⟩ := (Peer.adopt_eq_some_iff _ _ _).1 hadopt
      rw [← hline]
      simp [hempty, line?]
  | proceed hcalls hproceed hopen => exact absurd (proceed_installs_none hproceed hline) hnew
  | _ => exact absurd hline hnew

/-! ## Endings -/

theorem Settled.count_le (hsettled : life.Settled) : life.calls.count (.done true) ≤ 1 := by
  have hle := hsettled.live_le
  rw [teardowns, List.countP_append] at hle
  have hcount : life.calls.count (.done true) ≤ life.calls.countP Teardown.isLive := by
    refine List.countP_mono_left fun teardown _ hdone => ?_
    rw [eq_of_beq hdone]
    rfl
  omega

theorem Supervised.state_of_gone (hsupervised : Supervised life next) (hsound : life.Sound)
    (hgone : next.stage = .gone) : life.peer.state = .disconnected := by
  have hstate := (hsupervised.sound hsound).phase.state_of_gone hgone
  cases hsupervised
  case tear htearing hproceed hopen => exact absurd hgone nofun
  all_goals simp_all

/-! ## All of it -/

/-- What a peer promises at a point of its life. -/
structure Lawful (life : Life) : Prop where
  /-- An ended peer stays ended. -/
  absorbing : life.peer.state = .disconnected →
    ∀ next, Step life next → next.peer.state = .disconnected
  /-- A connected peer has one session, on a line that is open.  Any other open line is about to be
  installed or closed by the supervisor. -/
  connected : life.peer.state = .connected → ∃ session, life.peer.session = some session ∧
    (session.line ∈ life.offered ∧ session.line ∉ life.shut) ∧
    ∀ line ∈ life.offered, line ∉ life.shut →
      line = session.line ∨ life.stage.inHand? = some line
  /-- A peer that waits for a line has no session. -/
  reconnecting : life.peer.state = .reconnecting → life.peer.session = none
  /-- A session is installed only in a peer that waits for one. -/
  installed : ∀ next, Step life next → ∀ line, next.line? = some line → life.line? ≠ some line →
    life.peer.state = .reconnecting ∧ next.peer.state = .connected
  /-- A line that is offered to any other peer is closed at once. -/
  declined : life.peer.state ≠ .reconnecting → ∀ next, Meanwhile life next →
    ∀ line ∈ next.offered, line ∉ life.offered → line ∈ next.shut
  /-- So is a line that the supervisor of such a peer has dialed. -/
  refused : life.peer.state ≠ .reconnecting → ∀ next, Supervised life next →
    ∀ slots last line, life.stage = .dialed slots last line → line ∈ next.shut
  /-- At most one call that ends the peer finds it live. -/
  wonOnce : life.calls.count (.done true) ≤ 1
  /-- Whoever resumes the peer on a line leaves it to the supervisor, and finds the place empty. -/
  adopted : ∀ next, Meanwhile life next → ∀ line, next.line? = some line →
    life.line? ≠ some line → life.peer.handoff = none ∧ next.IsLeft line
  /-- A line that was left is that of the session, and within so many of its own sections the
  supervisor goes over to it, which it did not before, unless the peer is ended. -/
  resumed : ∀ line, life.IsLeft line → life.line? = some line ∧ line ∉ life.resumed ∧
    ∀ count next, Run life count next → life.patience ≤ count →
      line ∈ next.resumed ∨ next.peer.state = .disconnected
  /-- A supervisor that has not ended can go on. -/
  goesOn : life.stage ≠ .gone → ∃ next, Supervised life next
  /-- A supervisor gives up only if the peer is ended. -/
  cancelled : ∀ next, Supervised life next → next.stage = .gone →
    life.peer.state = .disconnected
  /-- A supervisor that has ended leaves an ended peer. -/
  left : life.stage = .gone → life.peer.state = .disconnected
  /-- Once the supervisor and all calls that end the peer have ended, there is no session and never
  will be, and every line that the peer was or is given is closed. -/
  finished : life.IsOver → ∀ count next, Run life count next →
    next.peer.session = none ∧ ∀ line ∈ next.offered, line ∈ next.shut

theorem Sound.connected (hsound : life.Sound) (hstate : life.peer.state = .connected) :
    ∃ session, life.peer.session = some session ∧
      (session.line ∈ life.offered ∧ session.line ∉ life.shut) ∧
      ∀ line ∈ life.offered, line ∉ life.shut →
        line = session.line ∨ life.stage.inHand? = some line := by
  obtain ⟨session, hsession⟩ : ∃ session, life.peer.session = some session := by
    cases hsound.phase with
    | @attended session _ hsession | @adopted session _ hsession => exact ⟨session, hsession⟩
    | waiting hother | ended hother => exact absurd (hstate.symm.trans hother) nofun
  have hline : life.line? = some session.line := by
    rw [line?, hsession, Option.map_some]
  refine ⟨session, hsession, hsound.accounts.session_open hline, fun line hoffered hopen => ?_⟩
  rcases hsound.accounts.place_of_open hoffered hopen with hown | hhand
  · exact Or.inl (Option.some.inj (hown.symm.trans hline))
  · exact Or.inr hhand

/-- **The lifecycle of a peer.**  Whatever sections a peer, its supervisor, the lines that it is
offered and the calls that end it go through, and in whatever order, the peer keeps its promises. -/
theorem lawful_of_run {id : Nat} {link : Link} {policy : LinkPolicy}
    (hattempts : policy.attempts + 1 < UInt32.size) {count : Nat}
    (hrun : Run (start id link policy) count life) : life.Lawful := by
  have hsound := hrun.sound (sound_start id link policy)
  have hpolicy : life.peer.policy = policy := hrun.sameSetup.policy
  constructor
  case absorbing =>
    rintro hstate next (hsupervised | hmeanwhile)
    · exact hsupervised.state_disconnected hstate
    · exact hmeanwhile.state_disconnected hstate
  case connected => exact hsound.connected
  case reconnecting => exact hsound.phase.session_eq_none
  case installed =>
    rintro next (hsupervised | hmeanwhile) line hline hnew
    · exact hsupervised.installed hline hnew
    · exact hmeanwhile.installed hline hnew
  case declined =>
    intro hstate next hmeanwhile line hoffered hnew
    exact hmeanwhile.declined hstate hoffered hnew
  case refused =>
    intro hstate next hsupervised slots last line hdialed
    exact hsupervised.declined hstate hdialed
  case wonOnce => exact hsound.settled.count_le
  case adopted =>
    intro next hmeanwhile line hline hnew
    exact hmeanwhile.adopted hsound.phase hline hnew
  case resumed =>
    intro line hleft
    refine ⟨(hleft.isSearching hsound.phase).2, (hsound.handed.unseen line hleft.handoff).2, ?_⟩
    intro later next hlater hcount
    exact hlater.resumed hsound hleft hcount
  case goesOn => exact exists_supervised (by rw [hpolicy]; exact hattempts)
  case cancelled =>
    intro next hsupervised hgone
    exact hsupervised.state_of_gone hsound hgone
  case left => exact hsound.phase.state_of_gone
  case finished =>
    intro hover later next hlater
    exact hover.forever hsound hlater

/-- The peer of the node at the other end of a line, which dialed. -/
def inboundLink : Link where
  line := 0
  identity := ⟨[1], 7000, protocolVersion⟩
  endpoint := ⟨"b", 7000⟩
  direction := .inbound

/-- A peer that lost its line and was resumed on another, before its supervisor has seen it. -/
theorem lawful_resumed :
    ∃ life, Run (start 1 inboundLink {}) 4 life ∧ life.IsLeft 1 ∧ life.Lawful := by
  have hlost := (@Run.refl (start 1 inboundLink {}))
    |>.supervise (Supervised.stop rfl (.io "reset"))
    |>.supervise (Supervised.live rfl nofun)
    |>.supervise (Supervised.stay rfl rfl)
    |>.supervise (Supervised.lose rfl rfl)
    |>.interpose (@Meanwhile.adopt _ 1 _ (by decide) rfl)
  exact ⟨_, hlost, ⟨rfl, rfl⟩, lawful_of_run (by decide) hlost⟩

end Overlay.Life
