import Overlay.Proofs.Node.Tracing

/-!
# Agreement on a connection

When two strangers that meet are done, they share one connection, unless each
has refused the one that the other kept.  There are encounters that end so:
nothing settles which of two connections is to stay when each node has let the
other one in before it adds the connection that it dialed.
-/

namespace Overlay.Encounter

variable {start e : Encounter} {side dialer : Side} {sketch : Sketch}

/-- Each node refused the connection that the other one did not. -/
def Crossed (e : Encounter) : Prop :=
  ∃ dialer, (e.Refused .left dialer ∧ ¬ e.Refused .right dialer) ∧
    e.Refused .right dialer.other ∧ ¬ e.Refused .left dialer.other

/-! ## What a sketch says of the end -/

theorem Traces.outcome_eq_none_iff (htraces : Traces start e sketch) (side dialer : Side) :
    (e.connection dialer).outcome side = none ↔ sketch.fate side dialer = .pending := by
  rw [← htraces.fate, Connection.fate]
  cases (e.connection dialer).outcome side with
  | none => exact iff_of_true rfl rfl
  | some result =>
      cases result with
      | error cause => simp [Fate.ofResult]
      | ok admission => cases admission <;> simp [Fate.ofResult]

/-- Only a refusal leaves a connection refused. -/
theorem Traces.refused_iff (htraces : Traces start e sketch) (side dialer : Side) :
    e.Refused side dialer ↔ sketch.fate side dialer = .refused := by
  rw [← htraces.fate, Connection.fate, Refused]
  cases (e.connection dialer).outcome side with
  | none => simp
  | some result =>
      cases result with
      | error cause => simp [Fate.ofResult]
      | ok admission => cases admission <;> simp [Fate.ofResult]

/-- A node holds the connection by which it is linked, and no other. -/
theorem Traces.holds_iff (htraces : Traces start e sketch) (hrules : sketch.Rules)
    (hstrangers : Strangers start) (side dialer : Side) :
    e.Holds side dialer ↔ sketch.standing side = .linked dialer := by
  constructor
  · rintro ⟨hpassage, peer, hpeer, -, hline⟩
    rw [htraces.passage] at hpassage
    rw [htraces.key_eq] at hpeer
    exact (htraces.linked_of_session hrules hstrangers hpassage hpeer hline).1
  · intro hlinked
    have hanswered := hrules.answered_of_linked hlinked
    have hstands := htraces.stands side
    rw [hlinked] at hstands
    cases hstands with
    | @linked _ peer hjoined hstate hsession =>
        refine ⟨by rw [htraces.passage, hanswered], peer, ?_, hstate, hsession⟩
        rw [htraces.key_eq]
        exact hjoined.withKey? (hstrangers.unacquainted side)

theorem Traces.isFinished (htraces : Traces start e sketch) (hfinished : e.IsFinished) :
    sketch.IsFinished := by
  intro dialer
  rcases hfinished dialer with hspared | ⟨hturned, -⟩ | ⟨hanswered, houtcome⟩
  · exact Or.inl ((htraces.passage dialer).symm.trans hspared)
  · exact Or.inr (Or.inl ((htraces.passage dialer).symm.trans hturned))
  · refine Or.inr (Or.inr ⟨(htraces.passage dialer).symm.trans hanswered, fun side hpending => ?_⟩)
    exact houtcome side ((htraces.outcome_eq_none_iff side dialer).2 hpending)

/-- Two nodes that are linked by one connection share it. -/
theorem Traces.shared (htraces : Traces start e sketch) (hrules : sketch.Rules)
    (hstrangers : Strangers start) (hlinked : ∀ side, sketch.standing side = .linked dialer) :
    e.Shared dialer := by
  intro side
  have hanswered := hrules.answered_of_linked (hlinked side)
  refine ⟨(htraces.holds_iff hrules hstrangers side dialer).2 (hlinked side), ?_, ?_⟩
  · rw [htraces.shut side dialer (by rw [hanswered]; trivial)]
    -- a node closes only what it refuses or has lost
    cases hshut : sketch.shut side dialer with
    | false => rfl
    | true =>
        rcases hrules.kept side dialer (Or.inr hanswered) hshut with hrefused | ⟨-, hlost⟩
        · rcases hrules.took_of_linked (hlinked side) with hadded | hresumed
          · exact absurd (hadded.symm.trans hrefused) nofun
          · exact absurd (hresumed.symm.trans hrefused) nofun
        · exact absurd (hlinked side) hlost
  · intro hholds
    have hother := (htraces.holds_iff hrules hstrangers side dialer.other).1 hholds
    rw [hlinked side, Standing.linked.injEq] at hother
    exact Side.ne_other dialer hother

/-- A node that holds a connection has not refused it. -/
theorem Traces.not_refused_of_holds (htraces : Traces start e sketch) (hrules : sketch.Rules)
    (hstrangers : Strangers start) (hholds : e.Holds side dialer) : ¬ e.Refused side dialer := by
  intro hrefused
  rw [htraces.refused_iff] at hrefused
  rw [htraces.holds_iff hrules hstrangers] at hholds
  rcases hrules.took_of_linked hholds with hadded | hresumed
  · exact absurd (hadded.symm.trans hrefused) nofun
  · exact absurd (hresumed.symm.trans hrefused) nofun

/-- A node that refused a connection has closed it. -/
theorem Traces.hasShut_of_refused (htraces : Traces start e sketch) (hrules : sketch.Rules)
    (hrefused : e.Refused side dialer) : e.hasShut side dialer = true := by
  rw [htraces.refused_iff] at hrefused
  have hfits := hrules.fits side dialer
  have hopened : (sketch.passage dialer).IsOpened := by
    rw [hrefused] at hfits
    cases hpassage : sketch.passage dialer with
    | greeted | turnedAway | answered => trivial
    | unused | spared => rw [hpassage] at hfits; exact absurd hfits nofun
  rw [htraces.shut side dialer hopened]
  exact hrules.closed side dialer hrefused

/-- A node that refused a connection has not refused the other one. -/
theorem Traces.not_refused_other (htraces : Traces start e sketch) (hrules : sketch.Rules)
    (hrefused : sketch.fate side dialer = .refused) : ¬ e.Refused side dialer.other := by
  rw [htraces.refused_iff, hrules.added_of_refused hrefused]
  exact nofun

/-- Where both nodes refused what the other one kept, what a node still holds is closed. -/
theorem Traces.closed_of_crossed (htraces : Traces start e sketch) (hrules : sketch.Rules)
    (hstrangers : Strangers start) (hcrossed : e.Crossed) (hholds : e.Holds side dialer) :
    e.hasShut side.other dialer = true ∧ ¬ e.Holds side.other dialer := by
  have hkept := htraces.not_refused_of_holds hrules hstrangers hholds
  have hrefused : e.Refused side.other dialer := by
    obtain ⟨first, ⟨hleft, -⟩, hright, -⟩ := hcrossed
    cases side with
    | left =>
        have hsame : dialer = first.other := by
          refine Side.eq_other_of_ne ?_
          rintro rfl
          exact hkept hleft
        rw [hsame]
        exact hright
    | right =>
        have hsame : dialer = first := by
          have hother : dialer = first.other.other := by
            refine Side.eq_other_of_ne ?_
            rintro rfl
            exact hkept hright
          rwa [Side.other_other] at hother
        rw [hsame]
        exact hleft
  refine ⟨htraces.hasShut_of_refused hrules hrefused, fun hother => ?_⟩
  exact htraces.not_refused_of_holds hrules hstrangers hother hrefused

/-! ## Encounters in which everything happens -/

/-- A node lets in the one that dials, and answers. -/
def grant (e : Encounter) (dialer : Side) : Encounter :=
  e.pass dialer ({ · with passage := .answered })

/-- A node adds the one that it let in. -/
def accept (e : Encounter) (dialer : Side) : Encounter :=
  e.offer dialer.other dialer (e.inbound dialer (e.greeting dialer).claim.identity)

/-- A node adds the one that it dialed. -/
def complete (e : Encounter) (dialer : Side) : Encounter :=
  e.offer dialer dialer (e.outbound dialer (e.answer dialer).claim.identity)

/-- Both nodes dial, and each lets the other one in. -/
def greeted (start : Encounter) : Encounter :=
  (((start.dial .left).dial .right).grant .left).grant .right

/-- The end when both nodes add the one that they let in before the one that they dialed. -/
def crossed (start : Encounter) : Encounter :=
  (((start.greeted.accept .left).accept .right).complete .left).complete .right

/-- The end when both nodes add each other on the connection that the left one dialed before either
looks at the other connection. -/
def agreed (start : Encounter) : Encounter :=
  (((start.greeted.accept .left).complete .left).accept .right).complete .right

/-- What an encounter leads to, with a sketch of it. -/
structure Reached (start e : Encounter) (sketch : Sketch) : Prop where
  run : Run start e
  traces : Traces start e sketch
  rules : sketch.Rules

namespace Reached

theorem dial (hreached : Reached start e sketch) (hstrangers : Strangers start)
    (hpassage : sketch.passage dialer = .unused) (halone : sketch.standing dialer = .alone) :
    Reached start (e.dial dialer) ((sketch.setPassage dialer .greeted).setOpen dialer) := by
  obtain ⟨hrun, htraces, hrules⟩ := hreached
  have hunknown := htraces.unknown_target hstrangers dialer
  refine ⟨hrun.step (.dial ?_ ?_), htraces.dial hpassage fun side hlinked => ?_, hrules.dial hpassage⟩
  · rw [htraces.passage, hpassage]
  · exact htraces.atEndpoint?_of_alone halone hunknown
  · exact absurd (hpassage.symm.trans (hrules.answered_of_linked hlinked)) nofun

theorem grant (hreached : Reached start e sketch) (hstrangers : Strangers start)
    (hpassage : sketch.passage dialer = .greeted)
    (halone : sketch.standing dialer.other = .alone) :
    Reached start (e.grant dialer) (sketch.setPassage dialer .answered) := by
  obtain ⟨hrun, htraces, hrules⟩ := hreached
  refine ⟨hrun.step (.answer ?_ (htraces.admission_of_alone hstrangers halone)),
    htraces.pass fun _ => ?_, hrules.answer hpassage⟩
  · rw [htraces.passage, hpassage]
  · rw [hpassage]
    trivial

theorem step_accept (hreached : Reached start e sketch) (hstrangers : Strangers start)
    (hpassage : sketch.passage dialer = .answered)
    (hpending : sketch.fate dialer.other dialer = .pending) : Step e (e.accept dialer) := by
  have hverify := hreached.traces.verify_greeting hstrangers dialer
  rw [← hreached.traces.greeting_eq] at hverify
  refine .accept ?_ ?_ hverify
  · rw [hreached.traces.passage, hpassage]
  · rwa [hreached.traces.outcome_eq_none_iff]

theorem step_complete (hreached : Reached start e sketch) (hstrangers : Strangers start)
    (hpassage : sketch.passage dialer = .answered)
    (hpending : sketch.fate dialer dialer = .pending) : Step e (e.complete dialer) := by
  have hverify := hreached.traces.verify_answer hstrangers dialer
  rw [← hreached.traces.answer_eq] at hverify
  refine .complete ?_ ?_ hverify
  · rw [hreached.traces.passage, hpassage]
  · rwa [hreached.traces.outcome_eq_none_iff]

theorem inbound_key (hreached : Reached start e sketch) (dialer : Side) :
    (e.inbound dialer (e.greeting dialer).claim.identity).identity.publicKey =
      start.key dialer.other.other := by
  rw [Side.other_other, hreached.traces.greeting_eq]
  rfl

theorem outbound_key (hreached : Reached start e sketch) (dialer : Side) :
    (e.outbound dialer (e.answer dialer).claim.identity).identity.publicKey =
      start.key dialer.other := by
  rw [hreached.traces.answer_eq]
  rfl

theorem accept_alone (hreached : Reached start e sketch) (hstrangers : Strangers start)
    (hpassage : sketch.passage dialer = .answered)
    (hpending : sketch.fate dialer.other dialer = .pending)
    (halone : sketch.standing dialer.other = .alone) :
    Reached start (e.accept dialer)
      ((sketch.setFate dialer.other dialer .added).setStanding dialer.other (.linked dialer)) := by
  have hunknown := hreached.traces.unknown_origin hstrangers dialer
  rw [← hreached.traces.greeting_eq] at hunknown
  exact ⟨hreached.run.step (hreached.step_accept hstrangers hpassage hpending),
    hreached.traces.offer_alone hstrangers halone (hreached.inbound_key dialer) rfl hunknown,
    hreached.rules.add hpassage hpending halone⟩

theorem accept_linked (hreached : Reached start e sketch) (hstrangers : Strangers start)
    (hpassage : sketch.passage dialer = .answered)
    (hpending : sketch.fate dialer.other dialer = .pending) {linked : Side}
    (hlinked : sketch.standing dialer.other = .linked linked) :
    Reached start (e.accept dialer)
      ((sketch.setFate dialer.other dialer .refused).setShut dialer.other dialer) := by
  refine ⟨hreached.run.step (hreached.step_accept hstrangers hpassage hpending),
    hreached.traces.offer_linked hstrangers hlinked ?_ (hreached.inbound_key dialer) rfl,
    hreached.rules.refuse hpassage hpending hlinked⟩
  rw [hpassage]
  trivial

theorem complete_alone (hreached : Reached start e sketch) (hstrangers : Strangers start)
    (hpassage : sketch.passage dialer = .answered) (hpending : sketch.fate dialer dialer = .pending)
    (halone : sketch.standing dialer = .alone) :
    Reached start (e.complete dialer)
      ((sketch.setFate dialer dialer .added).setStanding dialer (.linked dialer)) :=
  ⟨hreached.run.step (hreached.step_complete hstrangers hpassage hpending),
    hreached.traces.offer_alone hstrangers halone (hreached.outbound_key dialer) rfl
      (hreached.traces.unknown_target hstrangers dialer),
    hreached.rules.add hpassage hpending halone⟩

theorem complete_linked (hreached : Reached start e sketch) (hstrangers : Strangers start)
    (hpassage : sketch.passage dialer = .answered) (hpending : sketch.fate dialer dialer = .pending)
    {linked : Side} (hlinked : sketch.standing dialer = .linked linked) :
    Reached start (e.complete dialer)
      ((sketch.setFate dialer dialer .refused).setShut dialer dialer) := by
  refine ⟨hreached.run.step (hreached.step_complete hstrangers hpassage hpending),
    hreached.traces.offer_linked hstrangers hlinked ?_ (hreached.outbound_key dialer) rfl,
    hreached.rules.refuse hpassage hpending hlinked⟩
  rw [hpassage]
  trivial

/-- Both connections were answered, and nothing is pending: both nodes are done. -/
theorem isFinished (hreached : Reached start e sketch)
    (hanswered : ∀ dialer, sketch.passage dialer = .answered)
    (hdone : ∀ side dialer, sketch.fate side dialer ≠ .pending) : e.IsFinished := by
  intro dialer
  refine Or.inr (Or.inr ⟨?_, fun side houtcome => ?_⟩)
  · rw [hreached.traces.passage, hanswered]
  · exact hdone side dialer ((hreached.traces.outcome_eq_none_iff side dialer).1 houtcome)

end Reached

/-- Two strangers can dial each other and let each other in before either adds a connection. -/
theorem Strangers.reached_greeted (hstrangers : Strangers start) :
    ∃ sketch, Reached start start.greeted sketch ∧ (∀ dialer, sketch.passage dialer = .answered) ∧
      (∀ side dialer, sketch.fate side dialer = .pending) ∧
        ∀ side, sketch.standing side = .alone := by
  have hstart : Reached start start blank := ⟨.refl, hstrangers.traces, blank_rules⟩
  have hdialed : Reached start ((start.dial .left).dial .right) _ :=
    (hstart.dial hstrangers rfl rfl).dial hstrangers rfl rfl
  have hgreeted : Reached start start.greeted _ :=
    (hdialed.grant hstrangers rfl rfl).grant hstrangers rfl rfl
  refine ⟨_, hgreeted, fun dialer => ?_, fun _ _ => rfl, fun _ => rfl⟩
  cases dialer <;> rfl

/-- **Strangers that dial each other may end crossed**: linked, each by the connection that the
other one refused. -/
theorem Strangers.reached_crossed (hstrangers : Strangers start) :
    ∃ sketch, Reached start start.crossed sketch ∧ start.crossed.IsFinished ∧
      ∀ side, sketch.standing side = .linked side.other ∧ sketch.shut side side = true := by
  obtain ⟨sketch, hgreeted, hanswered, hpending, halone⟩ := hstrangers.reached_greeted
  have hright := hgreeted.accept_alone hstrangers (hanswered .left) (hpending .right .left)
    (halone .right)
  have hleft := hright.accept_alone hstrangers (hanswered .right) (hpending .left .right)
    (halone .left)
  have hrefused := hleft.complete_linked hstrangers (hanswered .left) (hpending .left .left) rfl
  have hcrossed := hrefused.complete_linked hstrangers (hanswered .right) (hpending .right .right) rfl
  refine ⟨_, hcrossed, hcrossed.isFinished hanswered fun side dialer => ?_, fun side => ?_⟩
  · cases side <;> cases dialer <;> exact nofun
  · cases side <;> exact ⟨rfl, rfl⟩

/-- Strangers that dial each other may end linked by one of the two connections. -/
theorem Strangers.reached_agreed (hstrangers : Strangers start) :
    ∃ sketch, Reached start start.agreed sketch ∧ start.agreed.IsFinished ∧
      ∀ side, sketch.standing side = .linked .left := by
  obtain ⟨sketch, hgreeted, hanswered, hpending, halone⟩ := hstrangers.reached_greeted
  have hright := hgreeted.accept_alone hstrangers (hanswered .left) (hpending .right .left)
    (halone .right)
  have hleft := hright.complete_alone hstrangers (hanswered .left) (hpending .left .left)
    (halone .left)
  have hrefused := hleft.accept_linked hstrangers (hanswered .right) (hpending .left .right) rfl
  have hagreed := hrefused.complete_linked hstrangers (hanswered .right) (hpending .right .right) rfl
  refine ⟨_, hagreed, hagreed.isFinished hanswered fun side dialer => ?_, fun side => ?_⟩
  · cases side <;> cases dialer <;> exact nofun
  · cases side <;> rfl

/-! ## Two nodes -/

/-- A node without peers that listens on a port. -/
def newcomer (key : Crypto.KeyPair) (port target : UInt16) : Party where
  handshaker := { key, port }
  host := "node"
  target := ⟨"node", target⟩
  greetsAt := 0
  answersAt := 0
  world := { pool := .empty {} key.publicKey none }

/-- Two nodes without peers. -/
def newcomers (left right : Crypto.KeyPair) : Encounter where
  party
    | .left => newcomer left 7001 7002
    | .right => newcomer right 7002 7001
  connection := fun _ => {}

theorem answer_newcomers (left right : Crypto.KeyPair) (side : Side) :
    (newcomers left right).answer side = (newcomers left right).greeting side.other := by
  cases side <;> rfl

theorem not_mem_newcomers (left right : Crypto.KeyPair) (side : Side) (peer : Peer) :
    peer ∉ ((newcomers left right).pool side).members := by
  cases side <;> exact List.not_mem_nil

theorem strangers_of_newcomers {left right : Crypto.KeyPair}
    (hkeys : left.publicKey ≠ right.publicKey)
    (hsigned : ∀ side, ((newcomers left right).greeting side).isSigned = true) :
    Strangers (newcomers left right) where
  keys := hkeys
  versions := rfl
  greetings := hsigned
  answers := fun side => by rw [answer_newcomers, hsigned]
  localKeys := fun side => by cases side <;> rfl
  ids := fun side peer hmember => absurd hmember (not_mem_newcomers left right side peer)
  unknownKeys := fun side peer hmember => absurd hmember (not_mem_newcomers left right side peer)
  unknownTargets := fun side peer hmember => absurd hmember (not_mem_newcomers left right side peer)
  unknownOrigins := fun side peer hmember => absurd hmember (not_mem_newcomers left right side peer)
  unused := fun _ => rfl

/-- Two nodes without peers, with the first keys of the curve. -/
def firstNewcomers : Encounter :=
  newcomers (.ofSecret 1) (.ofSecret 2)

theorem isSigned_firstNewcomers (side : Side) :
    ((newcomers (.ofSecret 1) (.ofSecret 2)).greeting side).isSigned = true := by
  cases side with
  | left => exact Handshaker.isSigned_build_first
  | right => exact Handshaker.isSigned_build_second

theorem strangers_firstNewcomers : Strangers firstNewcomers :=
  strangers_of_newcomers Handshaker.publicKey_first_ne isSigned_firstNewcomers

/-! ## Agreement -/

/-- **Two strangers that are done with each other share one connection, or they are crossed**: each
has refused the connection that the other one did not, and what a node still holds is closed at the
other end. -/
theorem shared_or_crossed (hstrangers : Strangers start) (hrun : Run start e)
    (hfinished : e.IsFinished) :
    (∃ dialer, e.Shared dialer) ∨
      e.Crossed ∧ ∀ side dialer, e.Holds side dialer →
        e.hasShut side.other dialer = true ∧ ¬ e.Holds side.other dialer := by
  obtain ⟨sketch, htraces, hrules⟩ := hstrangers.traced hrun
  rcases hrules.linked_or_crossed (htraces.isFinished hfinished) with
    ⟨dialer, hlinked⟩ | ⟨dialer, hleft, hright⟩
  · exact Or.inl ⟨dialer, htraces.shared hrules hstrangers hlinked⟩
  · have hkept := htraces.not_refused_other hrules hright
    rw [Side.other_other] at hkept
    have hcrossed : e.Crossed :=
      ⟨dialer, ⟨(htraces.refused_iff .left dialer).2 hleft, hkept⟩,
        (htraces.refused_iff .right dialer.other).2 hright, htraces.not_refused_other hrules hleft⟩
    refine Or.inr ⟨hcrossed, fun side dialer hholds => ?_⟩
    exact htraces.closed_of_crossed hrules hstrangers hcrossed hholds

/-- Two nodes that have not met can come to share the connection that the left one dialed. -/
theorem shared_or_crossed_firstNewcomers :
    Strangers firstNewcomers ∧ Run firstNewcomers firstNewcomers.agreed ∧
      firstNewcomers.agreed.IsFinished ∧ firstNewcomers.agreed.Shared .left := by
  obtain ⟨sketch, hreached, hfinished, hlinked⟩ := strangers_firstNewcomers.reached_agreed
  have hholds (side : Side) : firstNewcomers.agreed.Holds side .left :=
    (hreached.traces.holds_iff hreached.rules strangers_firstNewcomers side .left).2 (hlinked side)
  refine ⟨strangers_firstNewcomers, hreached.run, hfinished, ?_⟩
  rcases shared_or_crossed strangers_firstNewcomers hreached.run hfinished with
    ⟨dialer, hshared⟩ | ⟨-, hclosed⟩
  · cases dialer with
    | left => exact hshared
    | right => exact absurd (hholds .left) (hshared .left).2.2
  · exact absurd (hholds .right) (hclosed .left .left (hholds .left)).2

/-- Two nodes that have not met can end without a connection that they share: each holds one that
the other one has closed. -/
theorem crossed_firstNewcomers :
    Strangers firstNewcomers ∧ Run firstNewcomers firstNewcomers.crossed ∧
      firstNewcomers.crossed.IsFinished ∧ (¬ ∃ dialer, firstNewcomers.crossed.Shared dialer) ∧
        ∀ side, firstNewcomers.crossed.Holds side side.other ∧
          firstNewcomers.crossed.hasShut side.other side.other = true := by
  obtain ⟨sketch, hreached, hfinished, hends⟩ := strangers_firstNewcomers.reached_crossed
  have hholds (side : Side) : firstNewcomers.crossed.Holds side side.other :=
    (hreached.traces.holds_iff hreached.rules strangers_firstNewcomers side side.other).2
      (hends side).1
  refine ⟨strangers_firstNewcomers, hreached.run, hfinished, ?_, fun side => ⟨hholds side, ?_⟩⟩
  · rintro ⟨dialer, hshared⟩
    -- the node that dialed it holds the other one
    exact (hshared dialer).2.2 (hholds dialer)
  · have hanswered := hreached.rules.answered_of_linked (hends side).1
    rw [hreached.traces.shut _ _ (by rw [hanswered]; trivial)]
    exact (hends side.other).2

end Overlay.Encounter
