import Overlay.Proofs.Peer.Phase

/-!
# The accounts of a life

Every line that a peer was given is in one place: it was closed, it is that of
the session, or the supervisor has it in hand.  At most one ending finds the
peer live.  As long as an ended peer has a session, an ending is on its way to
take it.
-/

namespace Overlay

namespace Teardown

def isLive : Teardown → Bool
  | .marking => false
  | .cancelling wasLive => wasLive
  | .closing wasLive => wasLive
  | .detaching wasLive => wasLive
  | .done wasLive => wasLive

/-- Whether an ending has begun and has not taken the session. -/
def isPending : Teardown → Bool
  | .cancelling _ => true
  | .closing _ => true
  | _ => false

end Teardown

namespace Life

variable {life next : Life}

/-! ## Lines -/

/-- Every line is in one place, and was given once. -/
structure Accounts (life : Life) : Prop where
  balance : ∀ line, life.offered.count line =
    life.shut.count line + life.line?.toList.count line + life.stage.inHand?.toList.count line
  once : ∀ line, life.offered.count line ≤ 1

theorem accounts_start (id : Nat) (link : Link) (policy : LinkPolicy) :
    (start id link policy).Accounts where
  balance := fun line => by simp [start, line?, Peer.start, Stage.inHand?]
  once := fun line => by
    rw [start, List.count_singleton]
    split <;> decide

/-- Only lines that were given to a peer are closed. -/
theorem Accounts.mem_offered (haccounts : life.Accounts) {line : Nat} (hshut : line ∈ life.shut) :
    line ∈ life.offered := by
  have hbalance := haccounts.balance line
  have hpos := List.count_pos_iff.2 hshut
  exact List.count_pos_iff.1 (by omega)

/-- Accounts go on if the lines and their places are the same. -/
theorem Accounts.congr (haccounts : life.Accounts) (hoffered : next.offered = life.offered)
    (hshut : next.shut = life.shut) (hline : next.line? = life.line?)
    (hhand : next.stage.inHand? = life.stage.inHand?) : next.Accounts where
  balance := by
    rw [hoffered, hshut, hline, hhand]
    exact haccounts.balance
  once := by
    rw [hoffered]
    exact haccounts.once

/-- Accounts go on if a new line is in one place. -/
theorem Accounts.offer (haccounts : life.Accounts) {line : Nat} (hfresh : line ∉ life.offered)
    (hoffered : next.offered = line :: life.offered)
    (hplace : ∀ other, next.shut.count other + next.line?.toList.count other +
        next.stage.inHand?.toList.count other =
      life.shut.count other + life.line?.toList.count other +
        life.stage.inHand?.toList.count other + [line].count other) : next.Accounts where
  balance := fun other => by
    rw [hplace, hoffered, ← haccounts.balance, List.count_cons, List.count_singleton]
  once := fun other => by
    rw [hoffered, List.count_cons]
    by_cases hother : line = other
    · rw [← hother, List.count_eq_zero_of_not_mem hfresh]
      split <;> omega
    · rw [if_neg (by simpa using hother)]
      exact haccounts.once other

/-- Accounts go on if a line is moved. -/
theorem Accounts.move (haccounts : life.Accounts) (hoffered : next.offered = life.offered)
    (hplace : ∀ other, next.shut.count other + next.line?.toList.count other +
        next.stage.inHand?.toList.count other =
      life.shut.count other + life.line?.toList.count other +
        life.stage.inHand?.toList.count other) : next.Accounts where
  balance := fun other => by rw [hplace, hoffered, haccounts.balance]
  once := by
    rw [hoffered]
    exact haccounts.once

/-- Accounts go on if a new line is closed at once. -/
theorem Accounts.offerShut (haccounts : life.Accounts) {line : Nat} (hfresh : line ∉ life.offered)
    (hoffered : next.offered = line :: life.offered) (hshut : next.shut = line :: life.shut)
    (hline : next.line? = life.line?) (hhand : next.stage.inHand? = life.stage.inHand?) :
    next.Accounts := by
  refine haccounts.offer hfresh hoffered fun other => ?_
  rw [hshut, hline, hhand, List.count_cons, List.count_singleton]
  omega

/-- Accounts go on if what the supervisor has in hand is closed. -/
theorem Accounts.shutInHand (haccounts : life.Accounts) {held : Option Nat}
    (hheld : life.stage.inHand? = held) (hoffered : next.offered = life.offered)
    (hshut : next.shut = held.toList ++ life.shut) (hline : next.line? = life.line?)
    (hempty : next.stage.inHand? = none) : next.Accounts := by
  refine haccounts.move hoffered fun other => ?_
  rw [hshut, hline, hempty, hheld, List.count_append, Option.toList_none, List.count_nil]
  omega

/-- What a section of an ending does to the session: it closes its line or leaves it. -/
theorem proceed_line {teardown after : Teardown} {peer torn : Peer} {line : Option Nat}
    (hproceed : teardown.proceed peer = (after, line, torn)) :
    line = none ∧ torn.session = peer.session ∨
      line = peer.session.map (·.line) ∧ torn.session = none := by
  cases teardown with
  | closing wasLive =>
      obtain ⟨-, rfl, rfl⟩ := hproceed
      exact Or.inr ⟨rfl, rfl⟩
  | _ =>
      obtain ⟨-, rfl, rfl⟩ := hproceed
      exact Or.inl ⟨rfl, rfl⟩

/-- A peer that waits for a line has no session. -/
theorem Phase.session_eq_none (hphase : life.Phase) (hwaits : life.peer.state = .reconnecting) :
    life.peer.session = none := by
  cases hphase with
  | waiting hstate hsession => exact hsession
  | attended hstate | adopted hstate | ended hstate => exact absurd (hstate.symm.trans hwaits) nofun

/-- A section that closes the session or leaves it moves its line. -/
theorem Accounts.proceed (haccounts : life.Accounts) {teardown after : Teardown} {torn : Peer}
    {line : Option Nat} (hproceed : teardown.proceed life.peer = (after, line, torn))
    (hpeer : next.peer = torn) (hoffered : next.offered = life.offered)
    (hshut : next.shut = line.toList ++ life.shut)
    (hhand : next.stage.inHand? = life.stage.inHand?) : next.Accounts := by
  refine haccounts.move hoffered fun other => ?_
  rw [hshut, hhand, line?, line?, hpeer]
  rcases proceed_line hproceed with ⟨rfl, hsession⟩ | ⟨rfl, hsession⟩
  · rw [hsession]
    rfl
  · rw [hsession, List.count_append]
    simp only [Option.map_none, Option.toList_none, List.count_nil]
    omega

theorem Supervised.accounts (hsupervised : Supervised life next) (hphase : life.Phase)
    (haccounts : life.Accounts) : next.Accounts := by
  cases hsupervised
  case stop line hpumping cause =>
    refine haccounts.congr rfl rfl ?_ ?_
    · cases cause <;> rfl
    · rw [hpumping]
      rfl
  case lose line stale lost hlosing hlose =>
    obtain ⟨-, rfl, rfl⟩ := (Peer.lose_eq_some_iff _ _ _).1 hlose
    refine haccounts.move rfl fun other => ?_
    simp [line?, Stage.inHand?, hlosing]
  case drop stale slots hdropping hslots =>
    exact haccounts.shutInHand (by rw [hdropping]; rfl) rfl rfl rfl rfl
  case receive slots last line picked hwaiting hhandoff hpick =>
    obtain ⟨-, rfl⟩ := (Peer.pickUp_eq_some_iff _ _).1 hpick
    exact haccounts.congr rfl rfl rfl (by rw [hwaiting]; rfl)
  case mistaken slots last link hdialing hkey hfresh =>
    exact haccounts.offerShut hfresh rfl rfl rfl (by rw [hdialing]; rfl)
  case answered slots last link hdialing hkey hfresh =>
    refine haccounts.offer hfresh rfl fun other => ?_
    simp only [line?, Stage.inHand?, hdialing, Option.toList_none, List.count_nil,
      Option.toList_some]
    omega
  case install slots last line installed hdialed hinstall =>
    obtain ⟨hwaits, rfl⟩ := (Peer.install_eq_some_iff _ _ _).1 hinstall
    refine haccounts.move rfl fun other => ?_
    simp [line?, Stage.inHand?, hdialed, hphase.session_eq_none hwaits]
  case unopened slots last line hdialed hwaits cause =>
    have hheld : life.stage.inHand? = some line := by
      rw [hdialed]
      rfl
    exact haccounts.shutInHand hheld rfl rfl rfl rfl
  case overtaken slots last line other picked hdialed hinstall hhandoff hpick =>
    obtain ⟨-, rfl⟩ := (Peer.pickUp_eq_some_iff _ _).1 hpick
    have hheld : life.stage.inHand? = some line := by
      rw [hdialed]
      rfl
    exact haccounts.shutInHand hheld rfl rfl rfl rfl
  case refused slots last line hdialed hinstall hpick =>
    have hheld : life.stage.inHand? = some line := by
      rw [hdialed]
      rfl
    exact haccounts.shutInHand hheld rfl rfl rfl rfl
  case exhaust last exhausted hwaiting hexhaust =>
    obtain ⟨-, rfl⟩ := (Peer.exhaust_eq_some_iff _ _).1 hexhaust
    exact haccounts.congr rfl rfl rfl (by rw [hwaiting]; rfl)
  case collect line picked hcollecting hhandoff hpick =>
    obtain ⟨-, rfl⟩ := (Peer.pickUp_eq_some_iff _ _).1 hpick
    exact haccounts.congr rfl rfl rfl (by rw [hcollecting]; rfl)
  case tear teardown after line torn htearing hproceed hopen =>
    exact haccounts.proceed hproceed rfl rfl rfl (by rw [htearing]; rfl)
  -- the other sections leave all lines where they are
  all_goals
    refine haccounts.congr rfl rfl rfl ?_
    simp_all [Stage.inHand?]

theorem Meanwhile.accounts (hmeanwhile : Meanwhile life next) (hphase : life.Phase)
    (haccounts : life.Accounts) : next.Accounts := by
  cases hmeanwhile with
  | traffic hsession hline =>
      refine haccounts.congr rfl rfl ?_ rfl
      simp [line?, hsession, hline]
  | @adopt line adopted hfresh hadopt =>
      obtain ⟨hwaits, rfl⟩ := (Peer.adopt_eq_some_iff _ _ _).1 hadopt
      refine haccounts.offer hfresh rfl fun other => ?_
      simp only [line?, hphase.session_eq_none hwaits, Option.map_some, Option.map_none,
        Option.toList_some, Option.toList_none, List.count_nil]
      omega
  | decline hfresh hadopt => exact haccounts.offerShut hfresh rfl rfl rfl rfl
  | spoil hfresh hstate => exact haccounts.offerShut hfresh rfl rfl rfl rfl
  | call => exact haccounts.congr rfl rfl rfl rfl
  | proceed hcalls hproceed hopen => exact haccounts.proceed hproceed rfl rfl rfl rfl

/-! ## Endings -/

/-- At most one ending found the peer live, and if an ended peer has a session then an ending is to
take it. -/
structure Settled (life : Life) : Prop where
  live_le : life.teardowns.countP Teardown.isLive ≤ 1
  pending : life.peer.state = .disconnected → life.peer.session ≠ none →
    ∃ teardown ∈ life.teardowns, teardown.isPending = true

theorem settled_start (id : Nat) (link : Link) (policy : LinkPolicy) :
    (start id link policy).Settled where
  live_le := Nat.zero_le 1
  pending := nofun

/-- As long as the peer is live, no ending has found it so. -/
theorem Marked.countP_eq_zero (hmarked : life.Marked) (hlive : life.peer.state ≠ .disconnected) :
    life.teardowns.countP Teardown.isLive = 0 := by
  rw [List.countP_eq_zero]
  intro teardown hmem hfound
  refine hlive (hmarked teardown hmem ?_)
  rintro rfl
  exact Bool.false_ne_true hfound

/-- What a section of an ending makes of the ending. -/
theorem proceed_after {teardown after : Teardown} {peer torn : Peer} {line : Option Nat}
    (hproceed : teardown.proceed peer = (after, line, torn)) :
    (after.isLive = teardown.isLive ∨ peer.state ≠ .disconnected) ∧
      (torn.session ≠ none → teardown = .marking ∨ teardown.isPending = true →
        after.isPending = true) ∧
      (torn.session ≠ none → peer.session ≠ none) := by
  cases teardown with
  | marking =>
      obtain ⟨rfl, -, rfl⟩ := hproceed
      refine ⟨?_, fun _ _ => rfl, id⟩
      by_cases hstate : peer.state = .disconnected
      · exact Or.inl (by simp [Teardown.isLive, hstate])
      · exact Or.inr hstate
  | cancelling wasLive =>
      obtain ⟨rfl, -, rfl⟩ := hproceed
      exact ⟨Or.inl rfl, fun _ _ => rfl, id⟩
  | closing wasLive =>
      obtain ⟨rfl, -, rfl⟩ := hproceed
      exact ⟨Or.inl rfl, fun hsession => absurd rfl hsession, fun hsession => absurd rfl hsession⟩
  | detaching wasLive =>
      obtain ⟨rfl, -, rfl⟩ := hproceed
      refine ⟨Or.inl rfl, fun _ hpending => ?_, id⟩
      rcases hpending with hmarking | hpending
      · exact absurd hmarking nofun
      · exact absurd hpending Bool.false_ne_true
  | done wasLive =>
      obtain ⟨rfl, -, rfl⟩ := hproceed
      refine ⟨Or.inl rfl, fun _ hpending => ?_, id⟩
      rcases hpending with hmarking | hpending
      · exact absurd hmarking nofun
      · exact absurd hpending Bool.false_ne_true

/-- Endings go on if one of them does. -/
theorem Settled.proceed (hsettled : life.Settled) (hmarked : life.Marked)
    {teardown after : Teardown} {torn : Peer} {line : Option Nat}
    (hproceed : teardown.proceed life.peer = (after, line, torn)) (hpeer : next.peer = torn)
    {before behind : List Teardown} (hteardowns : life.teardowns = before ++ teardown :: behind)
    (hafter : next.teardowns = before ++ after :: behind) : next.Settled := by
  obtain ⟨hlive, hpends, hsession⟩ := proceed_after hproceed
  constructor
  · have hle := hsettled.live_le
    rw [hteardowns, List.countP_append, List.countP_cons] at hle
    rw [hafter, List.countP_append, List.countP_cons]
    rcases hlive with hsame | hstate
    · rw [hsame]
      exact hle
    · -- the peer was live, so nobody had found it so
      have hzero := hmarked.countP_eq_zero hstate
      rw [hteardowns, List.countP_append, List.countP_cons] at hzero
      split <;> omega
  · intro hstate hhas
    rw [hpeer] at hstate hhas
    rw [hafter]
    by_cases hmarking : teardown = .marking
    · exact ⟨after, by simp, hpends hhas (Or.inl hmarking)⟩
    · have hmem : teardown ∈ life.teardowns := by
        rw [hteardowns]
        simp
      obtain ⟨other, hother, hpending⟩ :=
        hsettled.pending (hmarked teardown hmem hmarking) (hsession hhas)
      rw [hteardowns, List.mem_append, List.mem_cons] at hother
      rcases hother with hbefore | rfl | hbehind
      · exact ⟨other, List.mem_append_left _ hbefore, hpending⟩
      · exact ⟨after, by simp, hpends hhas (Or.inr hpending)⟩
      · exact ⟨other, List.mem_append_right _ (List.mem_cons_of_mem _ hbehind), hpending⟩

/-- Endings go on if none of them is lost that found the peer live or is to take the session. -/
theorem Settled.congr (hsettled : life.Settled)
    (hlive : next.teardowns.countP Teardown.isLive ≤ life.teardowns.countP Teardown.isLive)
    (hpending : ∀ teardown ∈ life.teardowns, teardown.isPending = true → teardown ∈ next.teardowns)
    (hsession : next.peer.state = .disconnected → next.peer.session ≠ none →
      life.peer.state = .disconnected ∧ life.peer.session ≠ none) : next.Settled where
  live_le := Nat.le_trans hlive hsettled.live_le
  pending := fun hstate hhas => by
    obtain ⟨holdState, holdSession⟩ := hsession hstate hhas
    obtain ⟨teardown, hmem, hpends⟩ := hsettled.pending holdState holdSession
    exact ⟨teardown, hpending teardown hmem hpends, hpends⟩

theorem Supervised.settled (hsupervised : Supervised life next) (hphase : life.Phase)
    (hmarked : life.Marked) (hsettled : life.Settled) : next.Settled := by
  have hkeep (hstage : next.stage.teardown? = life.stage.teardown?)
      (hsession : next.peer.state = .disconnected → next.peer.session ≠ none →
        life.peer.state = .disconnected ∧ life.peer.session ≠ none) : next.Settled := by
    have hsame : next.teardowns = life.teardowns := by
      rw [teardowns, teardowns, hstage, hsupervised.calls_eq]
    refine hsettled.congr (Nat.le_of_eq (by rw [hsame])) ?_ hsession
    rw [hsame]
    exact fun _ hmem _ => hmem
  cases hsupervised
  case stop line hpumping cause =>
    refine hkeep (by rw [hpumping]; rfl) fun hstate hhas => ?_
    cases cause <;> exact ⟨hstate, hhas⟩
  case lose line stale lost hlosing hlose =>
    obtain ⟨-, -, rfl⟩ := (Peer.lose_eq_some_iff _ _ _).1 hlose
    exact hkeep (by rw [hlosing]; rfl) fun hstate _ => PeerState.noConfusion hstate
  case receive slots last line picked hwaiting hhandoff hpick =>
    obtain ⟨-, rfl⟩ := (Peer.pickUp_eq_some_iff _ _).1 hpick
    exact hkeep (by rw [hwaiting]; rfl) fun hstate hhas => ⟨hstate, hhas⟩
  case overtaken slots last line other picked hdialed hinstall hhandoff hpick =>
    obtain ⟨-, rfl⟩ := (Peer.pickUp_eq_some_iff _ _).1 hpick
    exact hkeep (by rw [hdialed]; rfl) fun hstate hhas => ⟨hstate, hhas⟩
  case collect line picked hcollecting hhandoff hpick =>
    obtain ⟨-, rfl⟩ := (Peer.pickUp_eq_some_iff _ _).1 hpick
    exact hkeep (by rw [hcollecting]; rfl) fun hstate hhas => ⟨hstate, hhas⟩
  case install slots last line installed hdialed hinstall =>
    obtain ⟨-, rfl⟩ := (Peer.install_eq_some_iff _ _ _).1 hinstall
    exact hkeep (by rw [hdialed]; rfl) fun hstate _ => PeerState.noConfusion hstate
  case exhaust last exhausted hwaiting hexhaust =>
    obtain ⟨hwaits, rfl⟩ := (Peer.exhaust_eq_some_iff _ _).1 hexhaust
    refine hkeep (by rw [hwaiting]; rfl) fun _ hhas => ?_
    exact absurd (hphase.session_eq_none hwaits) hhas
  case report cause hleaving =>
    have hold : life.teardowns = life.calls := by
      rw [teardowns, hleaving]
      rfl
    have hnew : teardowns { life with
        stage := .tearing .marking
        emitted := life.emitted ++ life.peer.told (.unreachable life.peer.id cause) } =
          .marking :: life.calls := rfl
    refine hsettled.congr ?_ ?_ fun hstate hhas => ⟨hstate, hhas⟩
    · rw [hold, hnew, List.countP_cons]
      exact Nat.le_refl _
    · rw [hold, hnew]
      exact fun _ hmem _ => List.mem_cons_of_mem _ hmem
  case tear teardown after line torn htearing hproceed hopen =>
    have hold : life.teardowns = [] ++ teardown :: life.calls := by
      rw [teardowns, htearing]
      rfl
    exact hsettled.proceed hmarked hproceed rfl hold rfl
  case finish wasLive htearing =>
    have hold : life.teardowns = .done wasLive :: life.calls := by
      rw [teardowns, htearing]
      rfl
    refine hsettled.congr ?_ ?_ fun hstate hhas => ⟨hstate, hhas⟩
    · rw [hold, List.countP_cons]
      exact Nat.le_add_right _ _
    · rw [hold]
      intro teardown hmem hpending
      rcases List.mem_cons.1 hmem with rfl | hcall
      · exact absurd hpending Bool.false_ne_true
      · exact hcall
  -- the other sections leave the state, the session and the endings as they are
  all_goals
    refine hkeep ?_ fun hstate hhas => ⟨hstate, hhas⟩
    simp_all [Stage.teardown?]

theorem Meanwhile.settled (hmeanwhile : Meanwhile life next) (hmarked : life.Marked)
    (hsettled : life.Settled) : next.Settled := by
  cases hmeanwhile with
  | traffic hsession hline =>
      refine hsettled.congr (Nat.le_refl _) (fun _ hmem _ => hmem) fun hstate _ => ⟨hstate, ?_⟩
      rw [hsession]
      exact nofun
  | adopt hfresh hadopt =>
      obtain ⟨-, rfl⟩ := (Peer.adopt_eq_some_iff _ _ _).1 hadopt
      exact hsettled.congr (Nat.le_refl _) (fun _ hmem _ => hmem) nofun
  | decline hfresh hadopt =>
      exact hsettled.congr (Nat.le_refl _) (fun _ hmem _ => hmem) fun hstate hhas => ⟨hstate, hhas⟩
  | spoil hfresh hstate =>
      exact hsettled.congr (Nat.le_refl _) (fun _ hmem _ => hmem) fun hstate hhas => ⟨hstate, hhas⟩
  | call =>
      refine hsettled.congr ?_ ?_ fun hstate hhas => ⟨hstate, hhas⟩
      · rw [teardowns, teardowns, List.countP_append, List.countP_append, List.countP_cons]
        exact Nat.le_refl _
      · intro teardown hmem _
        rcases List.mem_append.1 hmem with hown | hcall
        · exact List.mem_append_left _ hown
        · exact List.mem_append_right _ (List.mem_cons_of_mem _ hcall)
  | @proceed before behind teardown after line torn hcalls hproceed hopen =>
      have hold : life.teardowns =
          (life.stage.teardown?.toList ++ before) ++ teardown :: behind := by
        rw [teardowns, hcalls, List.append_assoc]
      have hnew : life.stage.teardown?.toList ++ (before ++ after :: behind) =
          (life.stage.teardown?.toList ++ before) ++ after :: behind := by
        rw [List.append_assoc]
      exact hsettled.proceed hmarked hproceed rfl hold hnew

/-! ## Lines that were left -/

/-- A line that was left to the supervisor is one that it did not go over to before. -/
structure Handed (life : Life) : Prop where
  resumed_offered : ∀ line ∈ life.resumed, line ∈ life.offered
  unseen : ∀ line, life.peer.handoff = some line → line ∈ life.offered ∧ line ∉ life.resumed

theorem handed_start (id : Nat) (link : Link) (policy : LinkPolicy) :
    (start id link policy).Handed where
  resumed_offered := nofun
  unseen := nofun

/-- Nothing was left to the supervisor of a peer that waits. -/
theorem Phase.handoff_eq_none (hphase : life.Phase) (hwaits : life.peer.state = .reconnecting) :
    life.peer.handoff = none := by
  cases hphase with
  | waiting hstate hsession hhandoff => exact hhandoff
  | attended hstate | adopted hstate | ended hstate => exact absurd (hstate.symm.trans hwaits) nofun

/-- The supervisor goes over to a line that it was given. -/
theorem Handed.resume (hhanded : life.Handed) {line : Nat} (hline : line ∈ life.offered)
    (hoffered : next.offered = life.offered) (hresumed : next.resumed = line :: life.resumed)
    (hhandoff : next.peer.handoff = none) : next.Handed where
  resumed_offered := by
    rw [hoffered, hresumed]
    intro other hother
    rcases List.mem_cons.1 hother with rfl | hold
    · exact hline
    · exact hhanded.resumed_offered other hold
  unseen := fun other hother => absurd (hhandoff.symm.trans hother) nofun

/-- More lines are offered, and nothing is left to the supervisor. -/
theorem Handed.congr (hhanded : life.Handed) (hoffered : ∀ line ∈ life.offered, line ∈ next.offered)
    (hresumed : next.resumed = life.resumed) (hhandoff : next.peer.handoff = life.peer.handoff) :
    next.Handed where
  resumed_offered := by
    rw [hresumed]
    exact fun line hmem => hoffered line (hhanded.resumed_offered line hmem)
  unseen := by
    rw [hresumed, hhandoff]
    intro line hleft
    obtain ⟨hmem, hunseen⟩ := hhanded.unseen line hleft
    exact ⟨hoffered line hmem, hunseen⟩

theorem Supervised.handed (hsupervised : Supervised life next) (hphase : life.Phase)
    (haccounts : life.Accounts) (hhanded : life.Handed) : next.Handed := by
  cases hsupervised
  case stop line hpumping cause =>
    refine hhanded.congr (fun _ hmem => hmem) rfl ?_
    cases cause <;> rfl
  case lose line stale lost hlosing hlose =>
    obtain ⟨-, -, rfl⟩ := (Peer.lose_eq_some_iff _ _ _).1 hlose
    exact hhanded.congr (fun _ hmem => hmem) rfl rfl
  case receive slots last line picked hwaiting hhandoff hpick =>
    obtain ⟨-, rfl⟩ := (Peer.pickUp_eq_some_iff _ _).1 hpick
    exact hhanded.resume (hhanded.unseen line hhandoff).1 rfl rfl rfl
  case overtaken slots last line other picked hdialed hinstall hhandoff hpick =>
    obtain ⟨-, rfl⟩ := (Peer.pickUp_eq_some_iff _ _).1 hpick
    exact hhanded.resume (hhanded.unseen other hhandoff).1 rfl rfl rfl
  case collect line picked hcollecting hhandoff hpick =>
    obtain ⟨-, rfl⟩ := (Peer.pickUp_eq_some_iff _ _).1 hpick
    exact hhanded.resume (hhanded.unseen line hhandoff).1 rfl rfl rfl
  case install slots last line installed hdialed hinstall =>
    obtain ⟨hwaits, rfl⟩ := (Peer.install_eq_some_iff _ _ _).1 hinstall
    have hgiven : line ∈ life.offered := by
      have hbalance := haccounts.balance line
      simp only [hdialed, Stage.inHand?, Option.toList_some, List.count_singleton_self] at hbalance
      exact List.count_pos_iff.1 (by omega)
    exact hhanded.resume hgiven rfl rfl (hphase.handoff_eq_none hwaits)
  case exhaust last exhausted hwaiting hexhaust =>
    obtain ⟨-, rfl⟩ := (Peer.exhaust_eq_some_iff _ _).1 hexhaust
    exact hhanded.congr (fun _ hmem => hmem) rfl rfl
  case mistaken | answered =>
    exact hhanded.congr (fun _ hmem => List.mem_cons_of_mem _ hmem) rfl rfl
  case tear teardown after line torn htearing hproceed hopen =>
    refine hhanded.congr (fun _ hmem => hmem) rfl ?_
    cases teardown <;> obtain ⟨-, -, rfl⟩ := hproceed <;> rfl
  all_goals exact hhanded.congr (fun _ hmem => hmem) rfl rfl

theorem Meanwhile.handed (hmeanwhile : Meanwhile life next) (hphase : life.Phase)
    (hhanded : life.Handed) : next.Handed := by
  cases hmeanwhile with
  | @adopt line adopted hfresh hadopt =>
      obtain ⟨hwaits, rfl⟩ := (Peer.adopt_eq_some_iff _ _ _).1 hadopt
      constructor
      · exact fun other hmem => List.mem_cons_of_mem _ (hhanded.resumed_offered other hmem)
      · intro other hleft
        simp only [hphase.handoff_eq_none hwaits, Option.isSome_none, Bool.false_eq_true, if_false,
          Option.some.injEq] at hleft
        rw [← hleft]
        exact ⟨List.mem_cons_self, fun hmem => hfresh (hhanded.resumed_offered line hmem)⟩
  | decline | spoil => exact hhanded.congr (fun _ hmem => List.mem_cons_of_mem _ hmem) rfl rfl
  | @proceed before behind teardown after line torn hcalls hproceed hopen =>
      refine hhanded.congr (fun _ hmem => hmem) rfl ?_
      cases teardown <;> obtain ⟨-, -, rfl⟩ := hproceed <;> rfl
  | traffic | call => exact hhanded.congr (fun _ hmem => hmem) rfl rfl

/-! ## All of it -/

/-- What holds of every life that was started. -/
structure Sound (life : Life) : Prop where
  phase : life.Phase
  marked : life.Marked
  accounts : life.Accounts
  settled : life.Settled
  handed : life.Handed

theorem sound_start (id : Nat) (link : Link) (policy : LinkPolicy) :
    (start id link policy).Sound where
  phase := phase_start id link policy
  marked := marked_start id link policy
  accounts := accounts_start id link policy
  settled := settled_start id link policy
  handed := handed_start id link policy

theorem Supervised.sound (hsupervised : Supervised life next) (hsound : life.Sound) :
    next.Sound where
  phase := hsupervised.phase hsound.phase
  marked := hsupervised.marked hsound.marked
  accounts := hsupervised.accounts hsound.phase hsound.accounts
  settled := hsupervised.settled hsound.phase hsound.marked hsound.settled
  handed := hsupervised.handed hsound.phase hsound.accounts hsound.handed

theorem Meanwhile.sound (hmeanwhile : Meanwhile life next) (hsound : life.Sound) :
    next.Sound where
  phase := hmeanwhile.phase hsound.phase hsound.marked
  marked := hmeanwhile.marked hsound.marked
  accounts := hmeanwhile.accounts hsound.phase hsound.accounts
  settled := hmeanwhile.settled hsound.marked hsound.settled
  handed := hmeanwhile.handed hsound.phase hsound.handed

theorem Run.sound {count : Nat} (hrun : Run life count next) (hsound : life.Sound) :
    next.Sound := by
  induction hrun with
  | refl => exact hsound
  | supervise hrun hsupervised ih => exact hsupervised.sound ih
  | interpose hrun hmeanwhile ih => exact hmeanwhile.sound ih

end Life

end Overlay
