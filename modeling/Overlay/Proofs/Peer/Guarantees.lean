import Overlay.Proofs.Peer.Telling

/-!
# What a peer guarantees

What holds of a peer in all that it tells.  Once a call that ends the peer has
returned, nobody hears it any more.  Once the remote node has said goodbye, the
peer does not look for another line.  A peer that nobody ends is heard, and is
live, until its supervisor gives it up.  And the lines that the supervisor goes
over to are all different.
-/

namespace Overlay.Life

open Wire

variable {life next : Life}

theorem Meanwhile.emitted_eq (hmeanwhile : Meanwhile life next) : next.emitted = life.emitted := by
  cases hmeanwhile <;> rfl

/-! ## Nothing after the end -/

/-- A peer that was ended by a call that has returned is not heard any more. -/
def Silenced (life : Life) : Prop :=
  ∀ wasLive, .done wasLive ∈ life.calls → life.peer.attached = false

/-- Nobody hears a peer again that is not heard any more. -/
theorem Turn.unheard (hturn : Turn life next) (hattached : life.peer.attached = false) :
    next.peer.attached = false ∧ next.emitted = life.emitted := by
  have htold (event : PeerEvent) : life.peer.told event = [] := by
    rw [Peer.told, hattached]
    rfl
  cases hturn with
  | heard hstage message hnext | announced hstage hnext | reported hstage hnext =>
      subst hnext
      exact ⟨hattached, by rw [htold, List.append_nil]⟩
  | torn hstage hproceed hnext =>
      subst hnext
      exact ⟨Bool.eq_false_iff.2 fun hheard =>
        ne_true_of_eq_false hattached ((Teardown.keeps hproceed).attached hheard), rfl⟩
  | resumed hsilent | quiet hsilent => exact ⟨hsilent.attached.trans hattached, hsilent.emitted⟩

theorem Meanwhile.unheard (hmeanwhile : Meanwhile life next)
    (hattached : life.peer.attached = false) : next.peer.attached = false := by
  cases hmeanwhile with
  | adopt hfresh hadopt =>
      obtain ⟨-, rfl⟩ := (Peer.adopt_eq_some_iff _ _ _).1 hadopt
      exact hattached
  | proceed hcalls hproceed hopen =>
      exact Bool.eq_false_iff.2 fun hheard =>
        ne_true_of_eq_false hattached ((Teardown.keeps hproceed).attached hheard)
  | _ => exact hattached

theorem Supervised.silenced (hsupervised : Supervised life next) (hphase : life.Phase)
    (hsilenced : life.Silenced) : next.Silenced := by
  intro wasLive hmem
  rw [hsupervised.calls_eq] at hmem
  exact ((hsupervised.turn hphase).unheard (hsilenced wasLive hmem)).1

theorem Meanwhile.silenced (hmeanwhile : Meanwhile life next) (hsilenced : life.Silenced) :
    next.Silenced := by
  intro wasLive hmem
  by_cases hold : .done wasLive ∈ life.calls
  · exact hmeanwhile.unheard (hsilenced wasLive hold)
  · -- only the last section of a call makes it one that has returned
    cases hmeanwhile with
    | call =>
        rcases List.mem_cons.1 hmem with hmarking | hmem
        · exact absurd hmarking nofun
        · exact absurd hmem hold
    | @proceed before behind teardown after line torn hcalls hproceed hopen =>
        obtain rfl : .done wasLive = after := by
          simp only [hcalls, List.mem_append, List.mem_cons, not_or] at hmem hold
          rcases hmem with hmem | hmem | hmem
          · exact absurd hmem hold.1
          · exact hmem
          · exact absurd hmem hold.2.2
        cases teardown with
        | detaching => obtain ⟨-, -, rfl⟩ := hproceed; rfl
        | done found => exact absurd rfl (hopen found)
        | _ => exact absurd (congrArg Prod.fst hproceed) nofun
    | _ => exact absurd hmem hold

/-! ## Goodbyes -/

/-- Whoever has heard a goodbye does not look for another line. -/
structure Parted (life : Life) : Prop where
  attends : life.peer.closing = true → life.stage.isAside = false
  heard : ∀ peer message, .message peer message ∈ life.emitted →
    message.tag = MessageKind.disconnect.tag → life.peer.closing = true

/-- A goodbye is not forgotten. -/
theorem Turn.closing (hturn : Turn life next) (hclosing : life.peer.closing = true) :
    next.peer.closing = true := by
  cases hturn with
  | heard hstage message hnext =>
      subst hnext
      show (life.peer.closing || _) = true
      rw [hclosing, Bool.true_or]
  | announced hstage hnext | reported hstage hnext =>
      subst hnext
      exact hclosing
  | torn hstage hproceed hnext =>
      subst hnext
      exact (Teardown.keeps hproceed).closing.trans hclosing
  | resumed hsilent | quiet hsilent => exact hsilent.closing.trans hclosing

theorem Meanwhile.closing_eq (hmeanwhile : Meanwhile life next) :
    next.peer.closing = life.peer.closing := by
  cases hmeanwhile with
  | adopt hfresh hadopt =>
      obtain ⟨-, rfl⟩ := (Peer.adopt_eq_some_iff _ _ _).1 hadopt
      rfl
  | proceed hcalls hproceed hopen => exact (Teardown.keeps hproceed).closing
  | _ => rfl

theorem Parted.attends_turn (hparted : life.Parted) (hturn : Turn life next)
    (hclosing : next.peer.closing = true) : next.stage.isAside = false := by
  cases hturn with
  | heard hstage message hnext | announced hstage hnext | reported hstage hnext
  | torn hstage hproceed hnext =>
      subst hnext
      first | rfl | (show life.stage.isAside = false; rw [hstage]; rfl)
  | resumed hsilent hsearching =>
      -- it would have looked for a line after it has heard a goodbye
      have hstays := hparted.attends (hsilent.closing.symm.trans hclosing)
      rw [(Stage.aside_of_isSearching hsearching).1] at hstays
      exact absurd hstays nofun
  | quiet hsilent hpasses haside =>
      rw [hsilent.closing] at hclosing
      refine Bool.eq_false_iff.2 fun hnow => ?_
      rcases haside hnow with hbefore | hopen
      · exact absurd (hbefore.symm.trans (hparted.attends hclosing)) nofun
      · exact absurd (hclosing.symm.trans hopen) nofun

theorem Parted.heard_turn (hparted : life.Parted) (hturn : Turn life next) {peer : Nat}
    {message : Message} (hmem : .message peer message ∈ next.emitted)
    (htag : message.tag = MessageKind.disconnect.tag) : next.peer.closing = true := by
  by_cases hold : .message peer message ∈ life.emitted
  · exact hturn.closing (hparted.heard peer message hold htag)
  · have hnew {event : PeerEvent} (hmem : .message peer message ∈ life.emitted ++
        life.peer.told event) : event = .message peer message := by
      rcases List.mem_append.1 hmem with hmem | hmem
      · exact absurd hmem hold
      · exact (Peer.mem_told hmem).symm
    cases hturn with
    | heard hstage other hnext =>
        subst hnext
        obtain ⟨-, rfl⟩ := PeerEvent.message.inj (hnew hmem)
        simp [Peer.hear, htag]
    | announced hstage hnext | reported hstage hnext =>
        subst hnext
        exact absurd (hnew hmem) nofun
    | torn hstage hproceed hnext =>
        subst hnext
        exact absurd hmem hold
    | resumed hsilent | quiet hsilent => exact absurd (hsilent.emitted ▸ hmem) hold

theorem Turn.parted (hturn : Turn life next) (hparted : life.Parted) : next.Parted :=
  ⟨hparted.attends_turn hturn, fun _ _ => hparted.heard_turn hturn⟩

theorem Meanwhile.parted (hmeanwhile : Meanwhile life next) (hparted : life.Parted) :
    next.Parted := by
  constructor
  · rw [hmeanwhile.closing_eq, hmeanwhile.stage_eq]
    exact hparted.attends
  · rw [hmeanwhile.closing_eq, hmeanwhile.emitted_eq]
    exact hparted.heard

/-! ## A peer that nobody ends -/

/-- As long as nobody ends a peer, it is heard and live until its supervisor gives it up. -/
def Unended (life : Life) : Prop :=
  life.calls = [] → life.stage.isSpent = false →
    life.peer.attached = true ∧
      (life.peer.state = .disconnected → life.stage.isLeaving = true)

theorem Turn.unended (hturn : Turn life next) (hcalls : next.calls = life.calls)
    (hunended : life.Unended) : next.Unended := by
  intro hnone hunspent
  rw [hcalls] at hnone
  cases hturn with
  | heard hstage message hnext =>
      subst hnext
      exact hunended hnone hunspent
  | announced hstage hnext =>
      subst hnext
      obtain ⟨hattached, hlive⟩ := hunended hnone (by rw [hstage]; rfl)
      refine ⟨hattached, fun hstate => ?_⟩
      have hleaving := hlive hstate
      rw [hstage] at hleaving
      exact absurd hleaving nofun
  | reported hstage hnext | torn hstage hproceed hnext =>
      subst hnext
      exact absurd hunspent nofun
  | resumed hsilent hsearching hline hstage =>
      obtain ⟨-, hbefore, hstays⟩ := Stage.aside_of_isSearching hsearching
      obtain ⟨hattached, hlive⟩ := hunended hnone hbefore
      refine ⟨hsilent.attached.trans hattached, fun hstate => ?_⟩
      rcases hsilent.state hstate with hstate | hleaving
      · exact absurd ((hlive hstate).symm.trans hstays) nofun
      · exact hleaving
  | quiet hsilent hpasses =>
      have hbefore : life.stage.isSpent = false :=
        Bool.eq_false_iff.2 fun hspent => ne_true_of_eq_false hunspent (hpasses.spent hspent)
      obtain ⟨hattached, hlive⟩ := hunended hnone hbefore
      refine ⟨hsilent.attached.trans hattached, fun hstate => ?_⟩
      rcases hsilent.state hstate with hstate | hleaving
      · exact absurd ((hlive hstate).symm.trans hpasses.stays) nofun
      · exact hleaving

theorem Meanwhile.unended (hmeanwhile : Meanwhile life next) (hunended : life.Unended) :
    next.Unended := by
  intro hnone hunspent
  rw [hmeanwhile.stage_eq] at hunspent ⊢
  cases hmeanwhile with
  | adopt hfresh hadopt =>
      obtain ⟨-, rfl⟩ := (Peer.adopt_eq_some_iff _ _ _).1 hadopt
      exact ⟨(hunended hnone hunspent).1, nofun⟩
  | call => exact absurd hnone (List.cons_ne_nil _ _)
  | proceed hcalls hproceed hopen =>
      exact absurd hnone (List.append_ne_nil_of_right_ne_nil _ (List.cons_ne_nil _ _))
  | _ => exact hunended hnone hunspent

/-- The supervisor of a peer that nobody ends exits only after it has given the peer up. -/
theorem Unended.spent_of_gone (hunended : life.Unended) (hcalls : life.calls = [])
    (hpasses : life.stage.Passes next.stage) (hstate : life.peer.state = .disconnected) :
    life.stage.isSpent = true := by
  refine Bool.of_not_eq_false fun hunspent => ?_
  have hleaving := (hunended hcalls hunspent).2 hstate
  exact absurd (hleaving.symm.trans hpasses.stays) nofun

/-! ## Lines -/

/-- The supervisor goes over to lines that are new, and attends to the last of them. -/
structure Sequence (first : Nat) (life : Life) : Prop where
  nodup : (life.resumed ++ [first]).Nodup
  known : ∀ line ∈ life.resumed ++ [first], line ∈ life.offered
  unused : ∀ line ∈ life.candidates, line ∈ life.offered ∧ line ∉ life.resumed ++ [first]
  current : ∀ line, life.stage.attended? = some line →
    (life.resumed ++ [first]).head? = some line

theorem sequence_start (id : Nat) (link : Link) (policy : LinkPolicy) :
    (start id link policy).Sequence link.line where
  nodup := List.pairwise_singleton _ _
  known := fun _ hmem => hmem
  unused := nofun
  current := fun _ hline => hline

/-- The order of lines goes on if no candidate is added but new ones. -/
theorem Sequence.congr {first : Nat} (hsequence : life.Sequence first)
    (hresumed : next.resumed = life.resumed) (hoffered : ∀ line ∈ life.offered, line ∈ next.offered)
    (hcandidates : ∀ line ∈ next.candidates,
      line ∈ life.candidates ∨ line ∈ next.offered ∧ line ∉ life.offered)
    (hattended : next.stage.attended? = none ∨ next.stage.attended? = life.stage.attended?) :
    next.Sequence first where
  nodup := by
    rw [hresumed]
    exact hsequence.nodup
  known := by
    rw [hresumed]
    exact fun line hmem => hoffered line (hsequence.known line hmem)
  unused := by
    rw [hresumed]
    intro line hmem
    rcases hcandidates line hmem with hold | ⟨hnew, hfresh⟩
    · obtain ⟨hgiven, hunused⟩ := hsequence.unused line hold
      exact ⟨hoffered line hgiven, hunused⟩
    · exact ⟨hnew, fun hmem => hfresh (hsequence.known line hmem)⟩
  current := by
    rw [hresumed]
    intro line hline
    rcases hattended with hnone | hsame
    · exact absurd (hnone.symm.trans hline) nofun
    · exact hsequence.current line (hsame.symm.trans hline)

theorem Turn.sequence {first : Nat} (hturn : Turn life next) (hsequence : life.Sequence first) :
    next.Sequence first := by
  cases hturn with
  | heard hstage message hnext =>
      subst hnext
      exact hsequence.congr rfl (fun _ hmem => hmem) (fun _ hmem => Or.inl hmem) (Or.inr rfl)
  | announced hstage hnext =>
      subst hnext
      refine hsequence.congr rfl (fun _ hmem => hmem) (fun _ hmem => Or.inl ?_) (Or.inr ?_)
      · simpa [candidates, hstage, Stage.dialed?] using hmem
      · rw [hstage]
        rfl
  | reported hstage hnext =>
      subst hnext
      refine hsequence.congr rfl (fun _ hmem => hmem) (fun _ hmem => Or.inl ?_) (Or.inl rfl)
      simpa [candidates, hstage, Stage.dialed?] using hmem
  | torn hstage hproceed hnext =>
      subst hnext
      refine hsequence.congr rfl (fun _ hmem => hmem) (fun _ hmem => Or.inl ?_) (Or.inl rfl)
      simpa [candidates, hstage, Stage.dialed?, (Teardown.keeps hproceed).handoff] using hmem
  | @resumed line hsilent hsearching hline hstage hresumed hoffered hcandidates =>
      obtain ⟨hgiven, hunused⟩ := hsequence.unused line hline
      constructor
      · rw [hresumed, List.cons_append]
        exact List.nodup_cons.2 ⟨hunused, hsequence.nodup⟩
      · rw [hresumed, hoffered]
        intro other hmem
        rcases List.mem_cons.1 hmem with rfl | hold
        · exact hgiven
        · exact hsequence.known other hold
      · rw [hcandidates]
        exact fun _ hmem => absurd hmem List.not_mem_nil
      · rw [hresumed, hstage]
        exact fun _ hother => hother
  | quiet hsilent hpasses haside hresumed hoffered hcandidates =>
      exact hsequence.congr hresumed hoffered hcandidates hpasses.attended

theorem Meanwhile.sequence {first : Nat} (hmeanwhile : Meanwhile life next) (hphase : life.Phase)
    (hsequence : life.Sequence first) : next.Sequence first := by
  cases hmeanwhile with
  | @adopt line adopted hfresh hadopt =>
      obtain ⟨hwaits, rfl⟩ := (Peer.adopt_eq_some_iff _ _ _).1 hadopt
      refine hsequence.congr rfl (fun _ hmem => List.mem_cons_of_mem _ hmem) (fun other hmem => ?_)
        (Or.inr rfl)
      simp only [candidates, hphase.handoff_eq_none hwaits, Option.isSome_none, Bool.false_eq_true,
        if_false, Option.toList_some, List.mem_append, List.mem_singleton] at hmem
      rcases hmem with rfl | hdialed
      · exact Or.inr ⟨List.mem_cons_self, hfresh⟩
      · exact Or.inl (List.mem_append_right _ hdialed)
  | decline | spoil =>
      exact hsequence.congr rfl (fun _ hmem => List.mem_cons_of_mem _ hmem)
        (fun _ hmem => Or.inl hmem) (Or.inr rfl)
  | proceed hcalls hproceed hopen =>
      refine hsequence.congr rfl (fun _ hmem => hmem) (fun _ hmem => Or.inl ?_) (Or.inr rfl)
      simpa [candidates, (Teardown.keeps hproceed).handoff] using hmem
  | traffic | call =>
      exact hsequence.congr rfl (fun _ hmem => hmem) (fun _ hmem => Or.inl hmem) (Or.inr rfl)

/-! ## All of it -/

/-- What holds of a peer that was started, whatever it has told. -/
structure Honest (id : Nat) (first : Nat) (life : Life) : Prop where
  sound : life.Sound
  identified : life.peer.id = id
  silenced : life.Silenced
  parted : life.Parted
  unended : life.Unended
  sequence : life.Sequence first

theorem honest_start (id : Nat) (link : Link) (policy : LinkPolicy) :
    (start id link policy).Honest id link.line where
  sound := sound_start id link policy
  identified := rfl
  silenced := nofun
  parted := ⟨nofun, nofun⟩
  unended := fun _ _ => ⟨rfl, nofun⟩
  sequence := sequence_start id link policy

theorem Turn.id_eq (hturn : Turn life next) : next.peer.id = life.peer.id := by
  cases hturn with
  | heard hstage message hnext | announced hstage hnext | reported hstage hnext =>
      subst hnext
      rfl
  | torn hstage hproceed hnext =>
      subst hnext
      exact (Teardown.keeps hproceed).id
  | resumed hsilent | quiet hsilent => exact hsilent.id

theorem Meanwhile.id_eq (hmeanwhile : Meanwhile life next) : next.peer.id = life.peer.id := by
  cases hmeanwhile with
  | adopt hfresh hadopt =>
      obtain ⟨-, rfl⟩ := (Peer.adopt_eq_some_iff _ _ _).1 hadopt
      rfl
  | proceed hcalls hproceed hopen => exact (Teardown.keeps hproceed).id
  | _ => rfl

variable {id first : Nat}

theorem Supervised.honest (hsupervised : Supervised life next) (hhonest : life.Honest id first) :
    next.Honest id first := by
  have hturn := hsupervised.turn hhonest.sound.phase
  constructor
  case sound => exact hsupervised.sound hhonest.sound
  case identified => exact hturn.id_eq.trans hhonest.identified
  case silenced => exact hsupervised.silenced hhonest.sound.phase hhonest.silenced
  case parted => exact hturn.parted hhonest.parted
  case unended => exact hturn.unended hsupervised.calls_eq hhonest.unended
  case sequence => exact hturn.sequence hhonest.sequence

theorem Meanwhile.honest (hmeanwhile : Meanwhile life next) (hhonest : life.Honest id first) :
    next.Honest id first where
  sound := hmeanwhile.sound hhonest.sound
  identified := hmeanwhile.id_eq.trans hhonest.identified
  silenced := hmeanwhile.silenced hhonest.silenced
  parted := hmeanwhile.parted hhonest.parted
  unended := hmeanwhile.unended hhonest.unended
  sequence := hmeanwhile.sequence hhonest.sound.phase hhonest.sequence

theorem Run.honest {count : Nat} (hrun : Run life count next) (hhonest : life.Honest id first) :
    next.Honest id first := by
  induction hrun with
  | refl => exact hhonest
  | supervise hrun hsupervised ih => exact hsupervised.honest ih
  | interpose hrun hmeanwhile ih => exact hmeanwhile.honest ih

/-- Nothing is told any more of a peer that is not heard any more. -/
theorem Run.unheard {count : Nat} (hrun : Run life count next) (hsound : life.Sound)
    (hattached : life.peer.attached = false) :
    next.peer.attached = false ∧ next.emitted = life.emitted := by
  induction hrun with
  | refl => exact ⟨hattached, rfl⟩
  | supervise hrun hsupervised ih =>
      obtain ⟨hstill, hsame⟩ := (hsupervised.turn (hrun.sound hsound).phase).unheard ih.1
      exact ⟨hstill, hsame.trans ih.2⟩
  | interpose hrun hmeanwhile ih =>
      exact ⟨hmeanwhile.unheard ih.1, hmeanwhile.emitted_eq.trans ih.2⟩

/-- A goodbye is remembered for ever. -/
theorem Run.closing {count : Nat} (hrun : Run life count next) (hsound : life.Sound)
    (hclosing : life.peer.closing = true) : next.peer.closing = true := by
  induction hrun with
  | refl => exact hclosing
  | supervise hrun hsupervised ih =>
      exact (hsupervised.turn (hrun.sound hsound).phase).closing ih
  | interpose hrun hmeanwhile ih => exact hmeanwhile.closing_eq.trans ih

/-- A peer that has heard a goodbye does not look for another line. -/
theorem Honest.stays (hhonest : life.Honest id first) (hclosing : life.peer.closing = true) :
    life.peer.state ≠ .reconnecting ∧ ∀ slots last, life.stage ≠ .dialing slots last := by
  have hattends := hhonest.parted.attends hclosing
  refine ⟨fun hwaits => ?_, fun slots last hdialing => ?_⟩
  · cases hhonest.sound.phase with
    | waiting hstate hsession hhandoff hcancelled hstage =>
        have hsearching : life.stage.isSearching = true := by
          simp [Stage.isSearching, hstage]
        cases (Stage.aside_of_isSearching hsearching).1.symm.trans hattends
    | attended hstate | adopted hstate | ended hstate =>
        cases hstate.symm.trans hwaits
  · rw [hdialing] at hattends
    cases hattends

end Overlay.Life
