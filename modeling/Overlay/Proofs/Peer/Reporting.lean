import Overlay.Proofs.Peer.Guarantees

/-!
# What a peer reports

The events of a peer are those of its sessions, one after the other: the
messages that were read on the first line, then, for each line that the
supervisor went over to, its announcement and the messages that were read on
it, and at last, if the peer is given up, that it cannot be reached.  A peer
that nobody ends says so before its supervisor exits.
-/

namespace Overlay.Life

open Wire

/-- An event that was told, with the line at which the supervisor was then. -/
abbrev Utterance := Option Nat × PeerEvent

/-- What was told on the way from one life to another. -/
inductive Chronicle (first : Life) : List Utterance → Life → Prop
  | refl : Chronicle first [] first
  | supervise {told : List Utterance} {fresh : List PeerEvent} {life next : Life}
      (hchronicle : Chronicle first told life) (hsupervised : Supervised life next)
      (hfresh : next.emitted = life.emitted ++ fresh) :
      Chronicle first (told ++ fresh.map fun event => (life.stage.attended?, event)) next
  | interpose {told : List Utterance} {life next : Life} (hchronicle : Chronicle first told life)
      (hmeanwhile : Meanwhile life next) : Chronicle first told next

/-- A session as others hear of it: its line, and the messages that were read on it. -/
structure Sitting where
  line : Nat
  messages : List Message

namespace Sitting

def heard (id : Nat) (sitting : Sitting) : List Utterance :=
  sitting.messages.map fun message => (some sitting.line, .message id message)

/-- A session that the supervisor went over to is announced first. -/
def announced (id : Nat) (sitting : Sitting) : List Utterance :=
  (some sitting.line, .reconnected id) :: sitting.heard id

/-- One more message was read. -/
def read (sitting : Sitting) (message : Message) : Sitting :=
  { sitting with messages := sitting.messages ++ [message] }

theorem heard_read (id : Nat) (sitting : Sitting) (message : Message) :
    (sitting.read message).heard id =
      sitting.heard id ++ [(some sitting.line, .message id message)] := by
  simp [heard, read]

theorem announced_read (id : Nat) (sitting : Sitting) (message : Message) :
    (sitting.read message).announced id =
      sitting.announced id ++ [(some sitting.line, .message id message)] := by
  rw [announced, heard_read]
  rfl

end Sitting

/-- What a peer tells of its sessions and of its end. -/
def report (id : Nat) (first : Sitting) (later : List Sitting) (last : Option NetError) :
    List Utterance :=
  first.heard id ++ later.flatMap (Sitting.announced id) ++
    last.toList.map fun cause => (none, .unreachable id cause)

/-- The first session hears a message, as long as no other line was announced. -/
theorem report_read (id : Nat) (first : Sitting) (message : Message) :
    report id (first.read message) [] none =
      report id first [] none ++ [(some first.line, .message id message)] := by
  simp [report, Sitting.heard_read]

/-- The session whose line was announced last hears a message. -/
theorem report_read_later (id : Nat) (first : Sitting) (before : List Sitting) (sitting : Sitting)
    (message : Message) :
    report id first (before ++ [sitting.read message]) none =
      report id first (before ++ [sitting]) none ++
        [(some sitting.line, .message id message)] := by
  simp [report, Sitting.announced_read]

variable {life next : Life}

/-! ## Chronicles of runs -/

theorem Turn.exists_fresh (hturn : Turn life next) :
    ∃ fresh, next.emitted = life.emitted ++ fresh := by
  cases hturn with
  | heard hstage message hnext | announced hstage hnext | reported hstage hnext =>
      subst hnext
      exact ⟨_, rfl⟩
  | torn hstage hproceed hnext =>
      subst hnext
      exact ⟨[], (List.append_nil _).symm⟩
  | resumed hsilent | quiet hsilent =>
      exact ⟨[], hsilent.emitted.trans (List.append_nil _).symm⟩

/-- Every run has a chronicle. -/
theorem Run.exists_chronicle {first : Life} {count : Nat} (hrun : Run first count life)
    (hsound : first.Sound) : ∃ told, Chronicle first told life := by
  induction hrun with
  | refl => exact ⟨[], Chronicle.refl⟩
  | supervise hrun hsupervised ih =>
      obtain ⟨told, hchronicle⟩ := ih
      obtain ⟨fresh, hfresh⟩ := (hsupervised.turn (hrun.sound hsound).phase).exists_fresh
      exact ⟨_, hchronicle.supervise hsupervised hfresh⟩
  | interpose hrun hmeanwhile ih =>
      obtain ⟨told, hchronicle⟩ := ih
      exact ⟨told, hchronicle.interpose hmeanwhile⟩

/-- Every chronicle is that of a run. -/
theorem Chronicle.exists_run {first : Life} {told : List Utterance}
    (hchronicle : Chronicle first told life) : ∃ count, Run first count life := by
  induction hchronicle with
  | refl => exact ⟨0, Run.refl⟩
  | supervise hchronicle hsupervised hfresh ih =>
      obtain ⟨count, hrun⟩ := ih
      exact ⟨count + 1, hrun.supervise hsupervised⟩
  | interpose hchronicle hmeanwhile ih =>
      obtain ⟨count, hrun⟩ := ih
      exact ⟨count, hrun.interpose hmeanwhile⟩

/-- A chronicle holds the events that were emitted. -/
theorem Chronicle.emitted_eq {first : Life} {told : List Utterance}
    (hchronicle : Chronicle first told life) :
    life.emitted = first.emitted ++ told.map (·.2) := by
  induction hchronicle with
  | refl => rw [List.map_nil, List.append_nil]
  | supervise hchronicle hsupervised hfresh ih =>
      rw [hfresh, ih, List.map_append, List.map_map, List.append_assoc]
      congr 2
      exact (List.map_id _).symm
  | interpose hchronicle hmeanwhile ih => exact hmeanwhile.emitted_eq.trans ih

/-! ## Sessions and the end -/

/-- How far the sessions and the end have been told. -/
structure Voice (life : Life) (later : List Sitting) (last : Option NetError) : Prop where
  spent : last.isSome = true → life.stage.isSpent = true
  ended : life.calls = [] → life.stage.isSpent = true → last.isSome = true
  visited : later.map (·.line) <+: life.resumed.reverse
  announced : life.peer.attached = true → (∀ line, life.stage ≠ .restored line) →
    life.resumed.reverse = later.map (·.line)
  pending : life.peer.attached = true → ∀ line, life.stage = .restored line →
    life.resumed.reverse = later.map (·.line) ++ [line]

/-- What was told is a report of sessions, the first of them on this line. -/
def Told (life : Life) (first : Nat) (told : List Utterance) : Prop :=
  ∃ messages later last, told = report life.peer.id ⟨first, messages⟩ later last ∧
    life.Voice later last

theorem told_start (id : Nat) (link : Link) (policy : LinkPolicy) :
    (start id link policy).Told link.line [] :=
  ⟨[], [], none, rfl, nofun, nofun, List.prefix_refl _, fun _ _ => rfl, nofun⟩

/-- A supervisor that has more to say has not said that the peer cannot be reached. -/
theorem Voice.last_eq_none {later : List Sitting} {last : Option NetError}
    (hvoice : life.Voice later last) (hunspent : life.stage.isSpent = false) : last = none :=
  Option.not_isSome_iff_eq_none.1 fun hlast => ne_true_of_eq_false hunspent (hvoice.spent hlast)

/-- A supervisor that attends to a session has announced it. -/
theorem voice_pumping {line : Nat} (hstage : life.stage = .pumping line) {later : List Sitting}
    (hvisited : later.map (·.line) <+: life.resumed.reverse)
    (hannounced : life.peer.attached = true → life.resumed.reverse = later.map (·.line)) :
    life.Voice later none where
  spent := by simp
  ended := by simp [hstage, Stage.isSpent]
  visited := hvisited
  announced := fun hheard _ => hannounced hheard
  pending := by simp [hstage]

/-- What is told goes on in silence. -/
theorem Told.mute {first : Nat} {told : List Utterance} (htold : life.Told first told)
    (hid : next.peer.id = life.peer.id)
    (hvoice : ∀ later last, life.Voice later last → next.Voice later last) :
    next.Told first told := by
  obtain ⟨messages, later, last, rfl, hbefore⟩ := htold
  exact ⟨messages, later, last, by rw [hid], hvoice later last hbefore⟩

variable {first : Nat}

theorem Told.heard {told : List Utterance} (htold : life.Told first told)
    (hsequence : life.Sequence first) {line : Nat} (hstage : life.stage = .pumping line)
    (message : Message) :
    Told { life with
        peer := life.peer.hear message
        emitted := life.emitted ++ life.peer.told (.message life.peer.id message) } first
      (told ++ (life.peer.told (.message life.peer.id message)).map fun event =>
        (life.stage.attended?, event)) := by
  obtain ⟨messages, later, last, rfl, hvoice⟩ := htold
  have hnone := hvoice.last_eq_none (by rw [hstage]; rfl)
  cases hattached : life.peer.attached with
  | false =>
      refine ⟨messages, later, last, ?_, hvoice.spent, hvoice.ended, hvoice.visited,
        hvoice.announced, hvoice.pending⟩
      rw [Peer.told, hattached]
      exact List.append_nil _
  | true =>
      have hlines := hvoice.announced hattached (by simp [hstage])
      have hcurrent := hsequence.current line (by rw [hstage]; rfl)
      have hspoken : ((life.peer.told (.message life.peer.id message)).map fun event =>
          (life.stage.attended?, event)) = [(some line, .message life.peer.id message)] := by
        simp [Peer.told, hattached, hstage, Stage.attended?]
      rw [hnone] at hvoice ⊢
      rw [hspoken]
      rcases List.eq_nil_or_concat later with rfl | ⟨before, sitting, rfl⟩
      · -- the session is still the first one
        obtain rfl : first = line := by simpa [List.reverse_eq_nil_iff.1 hlines] using hcurrent
        exact ⟨messages ++ [message], [], none, (report_read ..).symm, hvoice.spent, hvoice.ended,
          hvoice.visited, hvoice.announced, hvoice.pending⟩
      · -- the session is the last one that was announced
        rw [List.concat_eq_append] at hvoice hlines ⊢
        obtain rfl : sitting.line = line := by
          rw [← List.reverse_reverse life.resumed, hlines] at hcurrent
          simpa using hcurrent
        have hsame : (before ++ [sitting.read message]).map (·.line) =
            (before ++ [sitting]).map (·.line) := by
          simp [Sitting.read]
        refine ⟨messages, before ++ [sitting.read message], none, (report_read_later ..).symm,
          hvoice.spent, hvoice.ended, ?_, ?_, ?_⟩
        · exact hsame ▸ hvoice.visited
        · exact hsame ▸ hvoice.announced
        · exact hsame ▸ hvoice.pending

theorem Told.announced {told : List Utterance} (htold : life.Told first told) {line : Nat}
    (hstage : life.stage = .restored line) :
    Told { life with
        stage := .pumping line
        emitted := life.emitted ++ life.peer.told (.reconnected life.peer.id) } first
      (told ++ (life.peer.told (.reconnected life.peer.id)).map fun event =>
        (life.stage.attended?, event)) := by
  obtain ⟨messages, later, last, rfl, hvoice⟩ := htold
  have hnone := hvoice.last_eq_none (by rw [hstage]; rfl)
  rw [hnone] at hvoice ⊢
  cases hattached : life.peer.attached with
  | false =>
      refine ⟨messages, later, none, ?_, voice_pumping rfl hvoice.visited fun hheard => ?_⟩
      · rw [Peer.told, hattached]
        exact List.append_nil _
      · exact absurd hheard (ne_true_of_eq_false hattached)
  | true =>
      have hlines := hvoice.pending hattached line hstage
      let opened : Sitting := ⟨line, []⟩
      have hvisited : life.resumed.reverse = (later ++ [opened]).map (·.line) := by
        rw [hlines, List.map_append, List.map_singleton]
      refine ⟨messages, later ++ [opened], none, ?_,
        voice_pumping rfl (hvisited ▸ List.prefix_refl _) fun _ => hvisited⟩
      simp [report, Sitting.heard, Sitting.announced, Stage.attended?, Peer.told, hattached,
        hstage, opened]

theorem Told.reported {told : List Utterance} (htold : life.Told first told)
    (hunended : life.Unended) {cause : NetError} (hstage : life.stage = .leaving cause) :
    Told { life with
        stage := .tearing .marking
        emitted := life.emitted ++ life.peer.told (.unreachable life.peer.id cause) } first
      (told ++ (life.peer.told (.unreachable life.peer.id cause)).map fun event =>
        (life.stage.attended?, event)) := by
  obtain ⟨messages, later, last, rfl, hvoice⟩ := htold
  have hunspent : life.stage.isSpent = false := by
    rw [hstage]
    rfl
  have hnone := hvoice.last_eq_none hunspent
  have hannounced (hheard : life.peer.attached = true) (_ : ∀ line, Stage.tearing .marking ≠
      .restored line) : life.resumed.reverse = later.map (·.line) :=
    hvoice.announced hheard (by simp [hstage])
  rw [hnone] at hvoice ⊢
  cases hattached : life.peer.attached with
  | false =>
      refine ⟨messages, later, none, ?_, by simp, fun hcalls _ => ?_, hvoice.visited, hannounced,
        by simp⟩
      · rw [Peer.told, hattached]
        exact List.append_nil _
      · cases (hunended hcalls hunspent).1.symm.trans hattached
  | true =>
      refine ⟨messages, later, some cause, ?_, fun _ => rfl, fun _ _ => rfl, hvoice.visited,
        hannounced, by simp⟩
      simp [report, Peer.told, hattached, hstage, Stage.attended?]

theorem Voice.resumed {later : List Sitting} {last : Option NetError}
    (hvoice : life.Voice later last) (hsilent : Silent life next)
    (hsearching : life.stage.isSearching = true) {line : Nat}
    (hstage : next.stage = .restored line) (hresumed : next.resumed = line :: life.resumed) :
    next.Voice later last := by
  have hbefore := (Stage.aside_of_isSearching hsearching).2.1
  constructor
  · rw [hvoice.last_eq_none hbefore]
    exact nofun
  · rw [hstage]
    exact nofun
  · rw [hresumed, List.reverse_cons]
    exact hvoice.visited.trans (List.prefix_append _ _)
  · rw [hstage]
    exact fun _ hne => absurd rfl (hne line)
  · rw [hsilent.attached, hstage, hresumed, List.reverse_cons]
    intro hattached other hother
    obtain rfl := Stage.restored.inj hother
    rw [hvoice.announced hattached fun other hother => ?_]
    rw [hother] at hsearching
    exact absurd hsearching nofun

theorem Voice.quiet {later : List Sitting} {last : Option NetError} (hvoice : life.Voice later last)
    (hsilent : Silent life next) (hpasses : life.stage.Passes next.stage)
    (hresumed : next.resumed = life.resumed) (hcalls : next.calls = life.calls)
    (hspent : life.calls = [] → next.stage = .gone → life.stage.isSpent = true) :
    next.Voice later last where
  spent := fun hlast => hpasses.spent (hvoice.spent hlast)
  ended := fun hnone hafter =>
    hvoice.ended (hcalls ▸ hnone) (hspent (hcalls ▸ hnone) (hpasses.gone hafter))
  visited := by
    rw [hresumed]
    exact hvoice.visited
  announced := fun hheard _ => by
    rw [hresumed]
    exact hvoice.announced (hsilent.attached ▸ hheard) hpasses.before_ne
  pending := fun _ line hstage => absurd hstage (hpasses.after_ne line)

theorem Supervised.told (hsupervised : Supervised life next) (hsound : life.Sound)
    (hsequence : life.Sequence first) (hunended : life.Unended) {fresh : List PeerEvent}
    (hfresh : next.emitted = life.emitted ++ fresh) {told : List Utterance}
    (htold : life.Told first told) :
    next.Told first (told ++ fresh.map fun event => (life.stage.attended?, event)) := by
  have hsilence (hsame : next.emitted = life.emitted) : told ++
      fresh.map (fun event => (life.stage.attended?, event)) = told := by
    have hnil : fresh = [] := List.append_cancel_left ((hfresh.symm.trans hsame).trans
      (List.append_nil _).symm)
    rw [hnil, List.map_nil, List.append_nil]
  have hcalls := hsupervised.calls_eq
  cases hsupervised.turn hsound.phase with
  | heard hstage message hnext =>
      subst hnext
      rw [← List.append_cancel_left hfresh]
      exact htold.heard hsequence hstage message
  | announced hstage hnext =>
      subst hnext
      rw [← List.append_cancel_left hfresh]
      exact htold.announced hstage
  | reported hstage hnext =>
      subst hnext
      rw [← List.append_cancel_left hfresh]
      exact htold.reported hunended hstage
  | torn hstage hproceed hnext =>
      subst hnext
      rw [hsilence rfl]
      have hkeeps := Teardown.keeps hproceed
      refine htold.mute hkeeps.id fun later last hvoice => ⟨fun _ => rfl, fun hnone _ => ?_,
        hvoice.visited, fun hheard _ => ?_, nofun⟩
      · exact hvoice.ended hnone (by rw [hstage]; rfl)
      · exact hvoice.announced (hkeeps.attached hheard) (by rw [hstage]; exact nofun)
  | resumed hsilent hsearching hline hstage hresumed =>
      rw [hsilence hsilent.emitted]
      exact htold.mute hsilent.id fun later last hvoice =>
        hvoice.resumed hsilent hsearching hstage hresumed
  | quiet hsilent hpasses haside hresumed =>
      rw [hsilence hsilent.emitted]
      refine htold.mute hsilent.id fun later last hvoice =>
        hvoice.quiet hsilent hpasses hresumed hcalls fun hnone hgone => ?_
      exact hunended.spent_of_gone hnone hpasses (hsupervised.state_of_gone hsound hgone)

theorem Meanwhile.told (hmeanwhile : Meanwhile life next) {told : List Utterance}
    (htold : life.Told first told) :
    next.Told first told := by
  cases hmeanwhile with
  | adopt hfresh hadopt =>
      obtain ⟨-, rfl⟩ := (Peer.adopt_eq_some_iff _ _ _).1 hadopt
      exact htold.mute rfl fun later last hvoice => ⟨hvoice.spent, hvoice.ended, hvoice.visited,
        hvoice.announced, hvoice.pending⟩
  | call =>
      exact htold.mute rfl fun later last hvoice => ⟨hvoice.spent, nofun, hvoice.visited,
        hvoice.announced, hvoice.pending⟩
  | proceed hcalls hproceed hopen =>
      have hkeeps := Teardown.keeps hproceed
      refine htold.mute hkeeps.id fun later last hvoice => ⟨hvoice.spent, fun hnone => ?_,
        hvoice.visited, fun hheard => hvoice.announced (hkeeps.attached hheard),
        fun hheard => hvoice.pending (hkeeps.attached hheard)⟩
      exact absurd hnone (List.append_ne_nil_of_right_ne_nil _ (List.cons_ne_nil _ _))
  | traffic | decline | spoil =>
      exact htold.mute rfl fun later last hvoice => ⟨hvoice.spent, hvoice.ended, hvoice.visited,
        hvoice.announced, hvoice.pending⟩

/-! ## All of it -/

theorem Chronicle.told {id : Nat} {link : Link} {policy : LinkPolicy} {told : List Utterance}
    (hchronicle : Chronicle (start id link policy) told life) : life.Told link.line told := by
  induction hchronicle with
  | refl => exact told_start id link policy
  | supervise hchronicle hsupervised hfresh ih =>
      obtain ⟨count, hrun⟩ := hchronicle.exists_run
      have hhonest := hrun.honest (honest_start id link policy)
      exact hsupervised.told hhonest.sound hhonest.sequence hhonest.unended hfresh ih
  | interpose hchronicle hmeanwhile ih => exact hmeanwhile.told ih

/-- What a peer has reported, and what it still may. -/
structure Reported (id : Nat) (first : Nat) (told : List Utterance) (life : Life) : Prop where
  /-- The messages of each session come in one piece, and those of a new session after its
  announcement.  The end comes last, and at most once.  It has come if nobody called for the end
  of the peer and the supervisor has stopped. -/
  word : ∃ messages later last, told = report id ⟨first, messages⟩ later last ∧
    (first :: later.map (·.line)).Nodup ∧
    (life.calls = [] → (¬ ∃ next, Supervised life next) → last.isSome = true)
  /-- Nothing is told after a call that ends the peer has returned. -/
  silent : ∀ wasLive, .done wasLive ∈ life.calls →
    ∀ count next, Run life count next → next.emitted = life.emitted
  /-- After a goodbye was forwarded the peer never waits for a line, and no dial is made. -/
  parted : ∀ peer message, .message peer message ∈ life.emitted →
    message.tag = MessageKind.disconnect.tag →
    ∀ count next, Run life count next →
      next.peer.state ≠ .reconnecting ∧ ∀ slots last, next.stage ≠ .dialing slots last

theorem Told.word {told : List Utterance} (htold : life.Told first told)
    (hsequence : life.Sequence first) :
    ∃ messages later last, told = report life.peer.id ⟨first, messages⟩ later last ∧
      (first :: later.map (·.line)).Nodup ∧
      (life.calls = [] → life.stage.isSpent = true → last.isSome = true) := by
  obtain ⟨messages, later, last, rfl, hvoice⟩ := htold
  refine ⟨messages, later, last, rfl, ?_, hvoice.ended⟩
  have hnodup := (List.reverse_perm _).nodup_iff.2 hsequence.nodup
  rw [List.reverse_append, List.reverse_singleton, List.singleton_append] at hnodup
  exact hnodup.sublist (hvoice.visited.sublist.cons_cons first)

/-- **A peer that dies is reported once and last.**  Whatever its sessions end from, its dials come
to, and the calls of others do, and in whatever order: every run of a peer has a chronicle, which
holds the events that were emitted, and of it the peer keeps what `Reported` says. -/
theorem reported_of_run {id : Nat} {link : Link} {policy : LinkPolicy}
    (hattempts : policy.attempts + 1 < UInt32.size) {count : Nat}
    (hrun : Run (start id link policy) count life) :
    (∃ told, Chronicle (start id link policy) told life) ∧
      ∀ told, Chronicle (start id link policy) told life →
        told.map (·.2) = life.emitted ∧ life.Reported id link.line told := by
  have hhonest := hrun.honest (honest_start id link policy)
  refine ⟨hrun.exists_chronicle (sound_start id link policy), fun told hchronicle => ⟨?_, ?_⟩⟩
  · exact hchronicle.emitted_eq.symm
  constructor
  case word =>
    obtain ⟨messages, later, last, htold, hnodup, hended⟩ := hchronicle.told.word hhonest.sequence
    rw [hhonest.identified] at htold
    refine ⟨messages, later, last, htold, hnodup, fun hcalls hstuck => hended hcalls ?_⟩
    -- a supervisor that has not exited can go on
    by_cases hgone : life.stage = .gone
    · rw [hgone]
      rfl
    · have hpolicy : life.peer.policy = policy := hrun.sameSetup.policy
      rw [← hpolicy] at hattempts
      exact absurd (exists_supervised hattempts hgone) hstuck
  case silent =>
    intro wasLive hmem later next hlater
    exact (hlater.unheard hhonest.sound (hhonest.silenced wasLive hmem)).2
  case parted =>
    intro peer message hmem htag later next hlater
    have hclosing := hhonest.parted.heard peer message hmem htag
    exact (hlater.honest hhonest).stays (hlater.closing hhonest.sound hclosing)

/-- The node at the other end dialed, was lost, came back on another line and said goodbye. -/
theorem reported_of_goodbye :
    ∃ life told, Chronicle (start 1 inboundLink {}) told life ∧ life.stage = .gone ∧
      told = report 1 ⟨0, [⟨3, .ofBytes [7]⟩]⟩ [⟨1, [⟨6, .ofBytes []⟩]⟩]
        (some IoFault.endOfStream.toError) ∧ life.Reported 1 0 told := by
  have hquiet (events : List PeerEvent) : events = events ++ [] := (List.append_nil _).symm
  have hlost := (@Chronicle.refl (start 1 inboundLink {}))
    |>.supervise (Supervised.hear rfl ⟨3, .ofBytes [7]⟩) rfl
    |>.supervise (Supervised.stop rfl (.io "reset")) (hquiet _)
    |>.supervise (Supervised.live rfl nofun) (hquiet _)
    |>.supervise (Supervised.stay rfl rfl) (hquiet _)
    |>.supervise (Supervised.lose rfl rfl) (hquiet _)
    |>.supervise (Supervised.drop rfl rfl) (hquiet _)
  have hparted := hlost
    |>.interpose (@Meanwhile.adopt _ 1 _ (by decide) rfl)
    |>.supervise (Supervised.receive rfl rfl rfl) (hquiet _)
    |>.supervise (Supervised.announce rfl) rfl
    |>.supervise (Supervised.hear rfl ⟨6, .ofBytes []⟩) rfl
    |>.supervise (Supervised.stop rfl IoFault.endOfStream.toError) (hquiet _)
    |>.supervise (Supervised.live rfl nofun) (hquiet _)
    |>.supervise (Supervised.part rfl rfl) (hquiet _)
    |>.supervise (Supervised.report rfl) rfl
  have hgone := hparted
    |>.supervise (Supervised.tear rfl rfl nofun) (hquiet _)
    |>.supervise (Supervised.tear rfl rfl nofun) (hquiet _)
    |>.supervise (Supervised.tear rfl rfl nofun) (hquiet _)
    |>.supervise (Supervised.tear rfl rfl nofun) (hquiet _)
    |>.supervise (Supervised.finish rfl) (hquiet _)
  obtain ⟨count, hrun⟩ := hgone.exists_run
  exact ⟨_, _, hgone, rfl, rfl, ((reported_of_run (by decide) hrun).2 _ hgone).2⟩

end Overlay.Life
