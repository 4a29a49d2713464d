import Mathlib.Tactic.SplitIfs
import Overlay.Proofs.Peer.Lifecycle

/-!
# A search that nobody else interferes with

As long as no line is left to a supervisor and nobody ends its peer, what a
search comes to depends on how its dials end.  A script says this for every
dial.  The first good link is the one on which the peer resumes.  Without one
in time, the peer is given up for the error of the last dial.
-/

namespace Overlay

/-- How a dial ends: with an error, or with a link on which a session can be opened or not. -/
inductive Answer
  | failed (cause : NetError)
  | linked (link : Link) (opening : Except NetError Unit)

/-- What a dial comes to for a peer with a key: the line of a good link, or the error that it
leaves. -/
def Answer.outcome (key : Bytes) : Answer → Except NetError Nat
  | .failed cause => .error cause
  | .linked link opening =>
    if link.identity.publicKey = key then opening.map fun _ => link.line
    else .error (.handshake .keyChanged)

/-- How often a peer is dialed at most before it is given up. -/
def Peer.dials (peer : Peer) : Nat :=
  match peer.direction with
  | .outbound => peer.policy.attempts
  | .inbound => 0

theorem Peer.slots_of_outbound {peer : Peer} {slots : Nat} (hdirection : peer.direction = .outbound)
    (hslots : peer.slots? = some slots) : slots = peer.dials := by
  simp only [slots?, hdirection] at hslots
  split_ifs at hslots
  rw [dials, hdirection]
  exact (Option.some.inj hslots).symm

/-- A peer that has just lost its session. -/
def Peer.bereft (peer : Peer) : Peer :=
  { peer with state := .reconnecting, session := none }

/-- Whether a dial is under way, or has opened a line on which there is no session yet. -/
def Stage.isDialing : Stage → Bool
  | .dialing _ _ => true
  | .dialed _ _ _ => true
  | _ => false

theorem Stage.not_hasSettled {stage : Stage} (hsearching : stage.isSearching = true) :
    stage.hasSettled = false := by
  cases stage with
  | restored | leaving | gone => exact absurd hsearching nofun
  | _ => rfl

namespace Life

/-- The lives to which the supervisor alone leads until its search is over, if its dials end as a
script says, with the endpoints that it dials on the way. -/
inductive Redials (script : Nat → Answer) (first : Life) : List Endpoint → Life → Prop
  | refl : Redials script first [] first
  -- the supervisor goes on without a dial
  | go {dialed : List Endpoint} {life next : Life} (hredials : Redials script first dialed life)
      (hsearches : life.stage.hasSettled = false) (hbefore : life.stage.isDialing = false)
      (hafter : next.stage.isDialing = false) (hsupervised : Supervised life next) :
      Redials script first dialed next
  -- it dials
  | dial {dialed : List Endpoint} {life : Life} {slots : Nat} {last : NetError}
      (hredials : Redials script first dialed life)
      (hstage : life.stage = .waiting (slots + 1) last)
      (hdirection : life.peer.direction = .outbound) :
      Redials script first (dialed ++ [life.peer.endpoint])
        { life with stage := .dialing slots last }
  -- the dial fails
  | missed {dialed : List Endpoint} {life : Life} {slots : Nat} {last cause : NetError}
      (hredials : Redials script first dialed life) (hstage : life.stage = .dialing slots last)
      (hanswer : script (dialed.length - 1) = .failed cause) :
      Redials script first dialed { life with stage := .waiting slots cause }
  -- another node answers
  | mistaken {dialed : List Endpoint} {life : Life} {slots : Nat} {last : NetError} {link : Link}
      {opening : Except NetError Unit} (hredials : Redials script first dialed life)
      (hstage : life.stage = .dialing slots last)
      (hanswer : script (dialed.length - 1) = .linked link opening)
      (hkey : link.identity.publicKey ≠ life.peer.identity.publicKey)
      (hfresh : link.line ∉ life.offered) :
      Redials script first dialed { life with
        stage := .waiting slots (.handshake .keyChanged)
        offered := link.line :: life.offered
        shut := link.line :: life.shut }
  -- the node answers
  | answered {dialed : List Endpoint} {life : Life} {slots : Nat} {last : NetError} {link : Link}
      {opening : Except NetError Unit} (hredials : Redials script first dialed life)
      (hstage : life.stage = .dialing slots last)
      (hanswer : script (dialed.length - 1) = .linked link opening)
      (hkey : link.identity.publicKey = life.peer.identity.publicKey)
      (hfresh : link.line ∉ life.offered) :
      Redials script first dialed { life with
        stage := .dialed slots last link.line
        offered := link.line :: life.offered }
  -- a session is opened on the line
  | install {dialed : List Endpoint} {life : Life} {slots line : Nat} {last : NetError}
      {link : Link} {installed : Peer} (hredials : Redials script first dialed life)
      (hstage : life.stage = .dialed slots last line)
      (hanswer : script (dialed.length - 1) = .linked link (.ok ()))
      (hinstall : life.peer.install line = some installed) :
      Redials script first dialed { life with
        peer := installed
        stage := .restored line
        resumed := line :: life.resumed }
  -- no session can be opened on the line
  | unopened {dialed : List Endpoint} {life : Life} {slots line : Nat} {last cause : NetError}
      {link : Link} (hredials : Redials script first dialed life)
      (hstage : life.stage = .dialed slots last line)
      (hanswer : script (dialed.length - 1) = .linked link (.error cause))
      (hstate : life.peer.state = .reconnecting) :
      Redials script first dialed { life with
        stage := .waiting slots cause
        shut := line :: life.shut }

variable {script : Nat → Answer} {first life next : Life} {dialed : List Endpoint}

/-- All of this is done by the supervisor. -/
theorem Redials.run (hredials : Redials script first dialed life) :
    ∃ count, Run first count life := by
  induction hredials with
  | refl => exact ⟨0, .refl⟩
  | go _ _ _ _ hsupervised ih =>
      obtain ⟨count, hrun⟩ := ih
      exact ⟨_, hrun.supervise hsupervised⟩
  | dial _ hstage hdirection ih =>
      obtain ⟨count, hrun⟩ := ih
      exact ⟨_, hrun.supervise (.dial hstage hdirection)⟩
  | missed _ hstage _ ih =>
      obtain ⟨count, hrun⟩ := ih
      exact ⟨_, hrun.supervise (.missed hstage _)⟩
  | mistaken _ hstage _ hkey hfresh ih =>
      obtain ⟨count, hrun⟩ := ih
      exact ⟨_, hrun.supervise (.mistaken hstage hkey hfresh)⟩
  | answered _ hstage _ hkey hfresh ih =>
      obtain ⟨count, hrun⟩ := ih
      exact ⟨_, hrun.supervise (.answered hstage hkey hfresh)⟩
  | install _ hstage _ hinstall ih =>
      obtain ⟨count, hrun⟩ := ih
      exact ⟨_, hrun.supervise (.install hstage hinstall)⟩
  | unopened _ hstage _ hstate ih =>
      obtain ⟨count, hrun⟩ := ih
      exact ⟨_, hrun.supervise (.unopened hstage hstate _)⟩

/-! ## How far a search is -/

/-- So many dials of a peer have failed, and the last of them has left an error. -/
structure Fails (script : Nat → Answer) (peer : Peer) (made : Nat) (last : NetError) : Prop where
  all : ∀ index < made, ∃ cause, (script index).outcome peer.identity.publicKey = .error cause
  unmade : made = 0 → last = peer.notConnected
  latest : ∀ index, made = index + 1 →
    (script index).outcome peer.identity.publicKey = .error last

theorem fails_zero (script : Nat → Answer) (peer : Peer) : Fails script peer 0 peer.notConnected :=
  ⟨nofun, fun _ => rfl, nofun⟩

theorem Fails.succ {peer : Peer} {made : Nat} {last cause : NetError}
    (hfails : Fails script peer made last)
    (herror : (script made).outcome peer.identity.publicKey = .error cause) :
    Fails script peer (made + 1) cause where
  all index hindex := by
    rcases Nat.lt_succ_iff_lt_or_eq.1 hindex with hbefore | rfl
    · exact hfails.all index hbefore
    · exact ⟨cause, herror⟩
  unmade := nofun
  latest index hindex := Nat.succ.inj hindex ▸ herror

/-- The lines that a peer was given are those from before the search and those of its dials. -/
def Offers (script : Nat → Answer) (first : Life) (made : Nat) (life : Life) : Prop :=
  ∀ line ∈ life.offered, line ∈ first.offered ∨
    ∃ index < made, ∃ link opening, script index = .linked link opening ∧ link.line = line

theorem Offers.cons {made : Nat} (hoffers : Offers script first made life) {link : Link}
    {opening : Except NetError Unit} (hanswer : script made = .linked link opening)
    (hoffered : next.offered = link.line :: life.offered) :
    Offers script first (made + 1) next := by
  intro line hline
  rw [hoffered, List.mem_cons] at hline
  rcases hline with rfl | hbefore
  · exact Or.inr ⟨made, Nat.lt_succ_self _, link, opening, hanswer, rfl⟩
  · refine (hoffers line hbefore).imp_right fun ⟨index, hindex, hlinked⟩ => ?_
    exact ⟨index, Nat.lt_succ_of_lt hindex, hlinked⟩

theorem Offers.mono {made : Nat} (hoffers : Offers script first made life)
    (hoffered : next.offered = life.offered) : Offers script first (made + 1) next := by
  intro line hline
  rw [hoffered] at hline
  refine (hoffers line hline).imp_right fun ⟨index, hindex, hlinked⟩ => ?_
  exact ⟨index, Nat.lt_succ_of_lt hindex, hlinked⟩

/-- How far a search has come, by the stage of the supervisor, with the endpoints that it has
dialed. -/
inductive Seeks (script : Nat → Answer) (first : Life) : List Endpoint → Life → Prop
  | losing : Seeks script first [] first
  | dropping {life : Life} {stale : Option Nat} (hstage : life.stage = .dropping stale)
      (hpeer : life.peer = first.peer.bereft) (hoffers : Offers script first 0 life) :
      Seeks script first [] life
  | waiting {life : Life} {made slots : Nat} {last : NetError}
      (hstage : life.stage = .waiting slots last) (hpeer : life.peer = first.peer.bereft)
      (hoffers : Offers script first made life) (hfails : Fails script first.peer made last)
      (hbound : made ≤ first.peer.dials)
      (hslots : first.peer.direction = .outbound → made + slots = first.peer.dials) :
      Seeks script first (List.replicate made first.peer.endpoint) life
  | dialing {life : Life} {made slots : Nat} {last : NetError}
      (hstage : life.stage = .dialing slots last) (hpeer : life.peer = first.peer.bereft)
      (hoffers : Offers script first made life) (hfails : Fails script first.peer made last)
      (hslots : made + 1 + slots = first.peer.dials) :
      Seeks script first (List.replicate (made + 1) first.peer.endpoint) life
  | dialed {life : Life} {made slots : Nat} {last : NetError} {link : Link}
      {opening : Except NetError Unit} (hstage : life.stage = .dialed slots last link.line)
      (hpeer : life.peer = first.peer.bereft) (hoffers : Offers script first (made + 1) life)
      (hfails : Fails script first.peer made last)
      (hslots : made + 1 + slots = first.peer.dials)
      (hanswer : script made = .linked link opening)
      (hkey : link.identity.publicKey = first.peer.identity.publicKey) :
      Seeks script first (List.replicate (made + 1) first.peer.endpoint) life
  | restored {life : Life} {made line : Nat} {last : NetError}
      (hstage : life.stage = .restored line)
      (hpeer : life.peer =
        { first.peer with state := .connected, session := some { line } })
      (hfails : Fails script first.peer made last) (hbound : made < first.peer.dials)
      (hgood : (script made).outcome first.peer.identity.publicKey = .ok line) :
      Seeks script first (List.replicate (made + 1) first.peer.endpoint) life
  | leaving {life : Life} {last : NetError} (hstage : life.stage = .leaving last)
      (hpeer : life.peer = { first.peer with state := .disconnected, session := none })
      (hfails : Fails script first.peer first.peer.dials last) :
      Seeks script first (List.replicate first.peer.dials first.peer.endpoint) life

/-- The supervisor of a connected peer is about to give up the session. -/
structure LosesOut (life : Life) : Prop where
  stage : ∃ line, life.stage = .losing line
  state : life.peer.state = .connected
  handoff : life.peer.handoff = none
  cancelled : life.peer.cancelled = false

/-- Whoever gives up a session before the peer is ended has nothing left to it. -/
theorem Sound.losesOut (hsound : life.Sound) {line : Nat} (hstage : life.stage = .losing line)
    (hstate : life.peer.state ≠ .disconnected) : life.LosesOut := by
  cases hsound.phase with
  | attended hconnected _ hhandoff hcancelled =>
      exact ⟨⟨line, hstage⟩, hconnected, hhandoff, hcancelled⟩
  | waiting _ _ _ _ hwaiting =>
      rw [hstage] at hwaiting
      exact absurd hwaiting nofun
  | adopted _ _ _ _ hsearching =>
      rw [hstage] at hsearching
      exact absurd hsearching nofun
  | ended hended => exact absurd hended hstate

/-- Without a dial, a search begins, or goes on to the next slot, or is given up. -/
theorem Seeks.go (hseeks : Seeks script first dialed life) (hloses : first.LosesOut)
    (hsearches : life.stage.hasSettled = false) (hbefore : life.stage.isDialing = false)
    (hafter : next.stage.isDialing = false) (hsupervised : Supervised life next) :
    Seeks script first dialed next := by
  obtain ⟨⟨line, hlosing⟩, hstate, hhandoff, hcancelled⟩ := hloses
  cases hseeks with
  | losing =>
      cases hsupervised
      case lost hstage hlose =>
        exact absurd (hstate.symm.trans ((Peer.lose_eq_none_iff _).1 hlose)) nofun
      case lose line stale lost hstage hlose =>
        obtain ⟨-, -, rfl⟩ := (Peer.lose_eq_some_iff _ _ _).1 hlose
        exact .dropping rfl rfl fun line hline => Or.inl hline
      -- the other sections belong to other stages
      all_goals cases hlosing.symm.trans ‹first.stage = _›
  | dropping hstage hpeer hoffers =>
      cases hsupervised
      case drop stale slots hdropping hslots =>
        have hpolicy : first.peer.slots? = some slots := by
          rw [hpeer] at hslots
          exact hslots
        have hlast : life.peer.notConnected = first.peer.notConnected := by
          rw [hpeer]
          rfl
        refine @Seeks.waiting script first _ 0 slots _ rfl hpeer hoffers ?_ (Nat.zero_le _) ?_
        · rw [hlast]
          exact fails_zero script first.peer
        · intro hdirection
          rw [Nat.zero_add]
          exact Peer.slots_of_outbound hdirection hpolicy
      all_goals cases hstage.symm.trans ‹life.stage = _›
  | @waiting _ made slots last hstage hpeer hoffers hfails hbound hslots =>
      have hwaits : life.peer.state = .reconnecting := by
        rw [hpeer]
        rfl
      cases hsupervised
      case skip slots last hwaiting hdirection =>
        obtain ⟨rfl, rfl⟩ := Stage.waiting.inj (hstage.symm.trans hwaiting)
        refine .waiting rfl hpeer hoffers hfails hbound fun hout => ?_
        rw [hpeer] at hdirection
        exact absurd (hout.symm.trans hdirection) nofun
      case exhaust last given hwaiting hexhaust =>
        obtain ⟨rfl, rfl⟩ := Stage.waiting.inj (hstage.symm.trans hwaiting)
        obtain ⟨-, rfl⟩ := (Peer.exhaust_eq_some_iff _ _).1 hexhaust
        have hmade : made = first.peer.dials := by
          cases hdirection : first.peer.direction with
          | outbound => exact hslots hdirection
          | inbound =>
              rw [Peer.dials, hdirection] at hbound ⊢
              exact Nat.le_zero.1 hbound
        subst hmade
        exact .leaving rfl (by rw [hpeer]; rfl) hfails
      case spared last hwaiting hexhaust =>
        exact absurd hwaits ((Peer.exhaust_eq_none_iff _).1 hexhaust)
      case dial => exact absurd hafter nofun
      -- nobody ended the waiting, and nothing was left
      case cancel slots last _ hended =>
        rw [hpeer] at hended
        exact absurd (hcancelled.symm.trans hended) nofun
      case receive slots last other picked _ hother _ =>
        rw [hpeer] at hother
        exact absurd (hhandoff.symm.trans hother) nofun
      all_goals cases hstage.symm.trans ‹life.stage = _›
  | dialing hstage | dialed hstage =>
      rw [hstage] at hbefore
      exact absurd hbefore nofun
  | restored hstage | leaving hstage =>
      rw [hstage] at hsearches
      exact absurd hsearches nofun

/-- What is known of a supervisor that waits. -/
theorem Seeks.of_waiting (hseeks : Seeks script first dialed life) (hloses : first.LosesOut)
    {slots : Nat} {last : NetError} (hstage : life.stage = .waiting slots last) :
    ∃ made, dialed = List.replicate made first.peer.endpoint ∧
      life.peer = first.peer.bereft ∧ Offers script first made life ∧
      Fails script first.peer made last ∧
      (first.peer.direction = .outbound → made + slots = first.peer.dials) := by
  obtain ⟨line, hlosing⟩ := hloses.stage
  cases hseeks with
  | @waiting _ made before error hwaiting hpeer hoffers hfails hbound hslots =>
      obtain ⟨rfl, rfl⟩ := Stage.waiting.inj (hstage.symm.trans hwaiting)
      exact ⟨made, rfl, hpeer, hoffers, hfails, hslots⟩
  | losing => exact absurd (hstage.symm.trans hlosing) nofun
  | dropping hother | dialing hother | dialed hother | restored hother | leaving hother =>
      exact absurd (hstage.symm.trans hother) nofun

/-- What is known of a supervisor that dials. -/
theorem Seeks.of_dialing (hseeks : Seeks script first dialed life) (hloses : first.LosesOut)
    {slots : Nat} {last : NetError} (hstage : life.stage = .dialing slots last) :
    ∃ made, dialed = List.replicate (made + 1) first.peer.endpoint ∧
      life.peer = first.peer.bereft ∧ Offers script first made life ∧
      Fails script first.peer made last ∧ made + 1 + slots = first.peer.dials := by
  obtain ⟨line, hlosing⟩ := hloses.stage
  cases hseeks with
  | @dialing _ made before error hdialing hpeer hoffers hfails hslots =>
      obtain ⟨rfl, rfl⟩ := Stage.dialing.inj (hstage.symm.trans hdialing)
      exact ⟨made, rfl, hpeer, hoffers, hfails, hslots⟩
  | losing => exact absurd (hstage.symm.trans hlosing) nofun
  | dropping hother | waiting hother | dialed hother | restored hother | leaving hother =>
      exact absurd (hstage.symm.trans hother) nofun

/-- What is known of a supervisor that has a line to the node. -/
theorem Seeks.of_dialed (hseeks : Seeks script first dialed life) (hloses : first.LosesOut)
    {slots line : Nat} {last : NetError} (hstage : life.stage = .dialed slots last line) :
    ∃ made link opening, dialed = List.replicate (made + 1) first.peer.endpoint ∧
      life.peer = first.peer.bereft ∧ Offers script first (made + 1) life ∧
      Fails script first.peer made last ∧ made + 1 + slots = first.peer.dials ∧
      script made = .linked link opening ∧ link.line = line ∧
      link.identity.publicKey = first.peer.identity.publicKey := by
  obtain ⟨before, hlosing⟩ := hloses.stage
  cases hseeks with
  | @dialed _ made before error link opening hdialed hpeer hoffers hfails hslots hanswer hkey =>
      obtain ⟨rfl, rfl, rfl⟩ := Stage.dialed.inj (hstage.symm.trans hdialed)
      exact ⟨made, link, opening, rfl, hpeer, hoffers, hfails, hslots, hanswer, rfl, hkey⟩
  | losing => exact absurd (hstage.symm.trans hlosing) nofun
  | dropping hother | waiting hother | dialing hother | restored hother | leaving hother =>
      exact absurd (hstage.symm.trans hother) nofun

/-- The search goes on after a dial that has failed. -/
theorem seeks_of_error {made slots : Nat} {last cause : NetError}
    (hstage : next.stage = .waiting slots cause) (hpeer : next.peer = first.peer.bereft)
    (hoffers : Offers script first (made + 1) next) (hfails : Fails script first.peer made last)
    (hslots : made + 1 + slots = first.peer.dials)
    (herror : (script made).outcome first.peer.identity.publicKey = .error cause) :
    Seeks script first (List.replicate (made + 1) first.peer.endpoint) next :=
  .waiting hstage hpeer hoffers (hfails.succ herror) (by omega) fun _ => hslots

theorem Redials.seeks (hredials : Redials script first dialed life) (hloses : first.LosesOut) :
    Seeks script first dialed life := by
  induction hredials with
  | refl => exact .losing
  | go _ hsearches hbefore hafter hsupervised ih =>
      exact ih.go hloses hsearches hbefore hafter hsupervised
  | @dial dialed life slots last _ hstage hdirection ih =>
      obtain ⟨made, rfl, hpeer, hoffers, hfails, hslots⟩ := ih.of_waiting hloses hstage
      rw [hpeer] at hdirection ⊢
      rw [show first.peer.bereft.endpoint = first.peer.endpoint from rfl, ← List.replicate_succ']
      have hout := hslots hdirection
      exact .dialing rfl rfl hoffers hfails (by omega)
  | @missed dialed life slots last cause _ hstage hanswer ih =>
      obtain ⟨made, rfl, hpeer, hoffers, hfails, hslots⟩ := ih.of_dialing hloses hstage
      rw [List.length_replicate, Nat.add_sub_cancel] at hanswer
      exact seeks_of_error rfl hpeer (hoffers.mono rfl) hfails hslots (by rw [hanswer]; rfl)
  | @mistaken dialed life slots last link opening _ hstage hanswer hkey hfresh ih =>
      obtain ⟨made, rfl, hpeer, hoffers, hfails, hslots⟩ := ih.of_dialing hloses hstage
      rw [List.length_replicate, Nat.add_sub_cancel] at hanswer
      rw [hpeer] at hkey
      refine seeks_of_error rfl hpeer (hoffers.cons hanswer rfl) hfails hslots ?_
      rw [hanswer, Answer.outcome]
      exact if_neg hkey
  | @answered dialed life slots last link opening _ hstage hanswer hkey hfresh ih =>
      obtain ⟨made, rfl, hpeer, hoffers, hfails, hslots⟩ := ih.of_dialing hloses hstage
      rw [List.length_replicate, Nat.add_sub_cancel] at hanswer
      rw [hpeer] at hkey
      exact .dialed rfl hpeer (hoffers.cons hanswer rfl) hfails hslots hanswer hkey
  | @install dialed life slots line last link installed _ hstage hanswer hinstall ih =>
      obtain ⟨made, other, opening, rfl, hpeer, hoffers, hfails, hslots, hlinked, rfl, hkey⟩ :=
        ih.of_dialed hloses hstage
      rw [List.length_replicate, Nat.add_sub_cancel, hlinked] at hanswer
      obtain ⟨rfl, rfl⟩ := Answer.linked.inj hanswer
      obtain ⟨-, rfl⟩ := (Peer.install_eq_some_iff _ _ _).1 hinstall
      refine .restored rfl (by rw [hpeer]; rfl) hfails (by omega) ?_
      rw [hlinked, Answer.outcome]
      exact if_pos hkey
  | @unopened dialed life slots line last cause link _ hstage hanswer hstate ih =>
      obtain ⟨made, other, opening, rfl, hpeer, hoffers, hfails, hslots, hlinked, rfl, hkey⟩ :=
        ih.of_dialed hloses hstage
      rw [List.length_replicate, Nat.add_sub_cancel, hlinked] at hanswer
      obtain ⟨rfl, rfl⟩ := Answer.linked.inj hanswer
      refine seeks_of_error rfl hpeer hoffers hfails hslots ?_
      rw [hlinked, Answer.outcome]
      exact if_pos hkey

/-! ## The end of a search -/

/-- Every link of a script has a line of its own, which the peer was not given before. -/
structure Novel (script : Nat → Answer) (life : Life) : Prop where
  fresh : ∀ {index link opening}, script index = .linked link opening → link.line ∉ life.offered
  distinct : ∀ {index other link another opening result}, script index = .linked link opening →
    script other = .linked another result → link.line = another.line → index = other

theorem Novel.notMem_offered (hnovel : Novel script first) {made : Nat}
    (hoffers : Offers script first made life) {link : Link} {opening : Except NetError Unit}
    (hanswer : script made = .linked link opening) : link.line ∉ life.offered := by
  intro hline
  rcases hoffers _ hline with hbefore | ⟨index, hindex, other, result, hother, hsame⟩
  · exact hnovel.fresh hanswer hbefore
  · exact absurd (hnovel.distinct hother hanswer hsame) (Nat.ne_of_lt hindex)

/-- The supervisor goes on until the search is over, as the script says. -/
theorem Redials.exists_next (hredials : Redials script first dialed life)
    (hloses : first.LosesOut) (hnovel : Novel script first)
    (hslots : ∃ slots, first.peer.slots? = some slots)
    (hsearches : life.stage.hasSettled = false) :
    ∃ more next, Redials script first more next ∧ Supervised life next := by
  cases hredials.seeks hloses with
  | losing =>
      obtain ⟨line, hlosing⟩ := hloses.stage
      have hlose : first.peer.lose = some (first.peer.session.map (·.line), first.peer.bereft) :=
        (Peer.lose_eq_some_iff _ _ _).2 ⟨by rw [hloses.state]; exact nofun, rfl, rfl⟩
      have hsupervised := Supervised.lose hlosing hlose
      exact ⟨_, _, hredials.go hsearches (by rw [hlosing]; rfl) rfl hsupervised, hsupervised⟩
  | dropping hstage hpeer =>
      obtain ⟨slots, hslots⟩ := hslots
      have hsupervised := Supervised.drop hstage (show life.peer.slots? = some slots by
        rw [hpeer]
        exact hslots)
      exact ⟨_, _, hredials.go hsearches (by rw [hstage]; rfl) rfl hsupervised, hsupervised⟩
  | @waiting _ made slots last hstage hpeer =>
      cases slots with
      | zero =>
          have hexhaust := (Peer.exhaust_eq_some_iff life.peer _).2 ⟨by rw [hpeer]; rfl, rfl⟩
          have hsupervised := Supervised.exhaust hstage hexhaust
          exact ⟨_, _, hredials.go hsearches (by rw [hstage]; rfl) rfl hsupervised, hsupervised⟩
      | succ slots =>
          cases hdirection : life.peer.direction with
          | inbound =>
              have hsupervised := Supervised.skip hstage hdirection
              exact ⟨_, _, hredials.go hsearches (by rw [hstage]; rfl) rfl hsupervised,
                hsupervised⟩
          | outbound => exact ⟨_, _, hredials.dial hstage hdirection, .dial hstage hdirection⟩
  | @dialing _ made slots last hstage hpeer hoffers =>
      cases hanswer : script made with
      | failed cause =>
          exact ⟨_, _, hredials.missed hstage (by simpa using hanswer), .missed hstage cause⟩
      | linked link opening =>
          have hfresh := hnovel.notMem_offered hoffers hanswer
          by_cases hkey : link.identity.publicKey = life.peer.identity.publicKey
          · exact ⟨_, _, hredials.answered hstage (by simpa using hanswer) hkey hfresh,
              .answered hstage hkey hfresh⟩
          · exact ⟨_, _, hredials.mistaken hstage (by simpa using hanswer) hkey hfresh,
              .mistaken hstage hkey hfresh⟩
  | @dialed _ made slots last link opening hstage hpeer _ _ _ hanswer =>
      have hwaits : life.peer.state = .reconnecting := by
        rw [hpeer]
        rfl
      cases opening with
      | ok =>
          have hinstall := (Peer.install_eq_some_iff life.peer _ link.line).2 ⟨hwaits, rfl⟩
          exact ⟨_, _, hredials.install hstage (by simpa using hanswer) hinstall,
            .install hstage hinstall⟩
      | error cause =>
          exact ⟨_, _, hredials.unopened hstage (by simpa using hanswer) hwaits,
            .unopened hstage hwaits cause⟩
  | restored hstage | leaving hstage =>
      rw [hstage] at hsearches
      exact absurd hsearches nofun

/-- Every search that nobody interferes with comes to an end. -/
theorem Redials.exists_settled (hredials : Redials script first dialed life)
    (hloses : first.LosesOut) (hnovel : Novel script first)
    (hslots : ∃ slots, first.peer.slots? = some slots)
    (hsearching : life.stage.isSearching = true) :
    ∃ more settled, Redials script first more settled ∧ settled.stage.hasSettled = true := by
  -- the supervisor comes closer to the end with each of its sections
  induction hpatience : life.patience using Nat.strongRecOn generalizing dialed life with
  | _ patience ih =>
      obtain ⟨more, next, hnext, hsupervised⟩ :=
        hredials.exists_next hloses hnovel hslots (Stage.not_hasSettled hsearching)
      rcases hsupervised.nearer hsearching with hsettled | ⟨hstill, -, hcloser⟩
      · exact ⟨more, next, hnext, hsettled⟩
      · exact ih next.patience (by omega) hnext hstill rfl

/-- What a search comes to: the first good link within the dials that the peer has, or none. -/
inductive Settles (script : Nat → Answer) (first : Life) (dialed : List Endpoint) (life : Life) :
    Prop
  | restored {made line : Nat} (hmade : made < first.peer.dials)
      (hbefore : ∀ index < made, ∃ cause,
        (script index).outcome first.peer.identity.publicKey = .error cause)
      (hgood : (script made).outcome first.peer.identity.publicKey = .ok line)
      (hdialed : dialed = List.replicate (made + 1) first.peer.endpoint)
      (hstage : life.stage = .restored line) (hstate : life.peer.state = .connected)
      (hsession : life.peer.session = some { line })
  | exhausted {cause : NetError} (hall : ∀ index < first.peer.dials, ∃ cause,
        (script index).outcome first.peer.identity.publicKey = .error cause)
      (hdialed : dialed = List.replicate first.peer.dials first.peer.endpoint)
      (hstage : life.stage = .leaving cause) (hstate : life.peer.state = .disconnected)
      (hsession : life.peer.session = none)
      (hunmade : first.peer.dials = 0 → cause = first.peer.notConnected)
      (hlatest : ∀ index, first.peer.dials = index + 1 →
        (script index).outcome first.peer.identity.publicKey = .error cause)

theorem Redials.settles (hredials : Redials script first dialed life) (hloses : first.LosesOut)
    (hsettled : life.stage.hasSettled = true) : Settles script first dialed life := by
  cases hredials.seeks hloses with
  | restored hstage hpeer hfails hbound hgood =>
      exact .restored hbound hfails.all hgood rfl hstage (by rw [hpeer]) (by rw [hpeer])
  | leaving hstage hpeer hfails =>
      exact .exhausted hfails.all rfl hstage (by rw [hpeer]) (by rw [hpeer]) hfails.unmade
        hfails.latest
  | losing =>
      obtain ⟨line, hlosing⟩ := hloses.stage
      rw [hlosing] at hsettled
      exact absurd hsettled nofun
  | dropping hstage | waiting hstage | dialing hstage | dialed hstage =>
      rw [hstage] at hsettled
      exact absurd hsettled nofun

/-- A link is good only if it has the key of the peer. -/
theorem Answer.exists_of_outcome_ok {answer : Answer} {key : Bytes} {line : Nat}
    (hgood : answer.outcome key = .ok line) :
    ∃ link opening, answer = .linked link opening ∧ link.line = line ∧
      link.identity.publicKey = key := by
  cases answer with
  | failed cause => exact absurd hgood nofun
  | linked link opening =>
      rw [Answer.outcome] at hgood
      split_ifs at hgood with hkey
      cases opening with
      | error cause => exact absurd hgood nofun
      | ok => exact ⟨link, _, rfl, Except.ok.inj hgood, hkey⟩

/-- A link with another key is never that of the session. -/
theorem Redials.line?_ne (hredials : Redials script first dialed life) (hloses : first.LosesOut)
    (hsound : first.Sound) (hnovel : Novel script first) {index : Nat} {link : Link}
    {opening : Except NetError Unit} (hanswer : script index = .linked link opening)
    (hkey : link.identity.publicKey ≠ first.peer.identity.publicKey) :
    life.line? ≠ some link.line := by
  intro hline
  cases hredials.seeks hloses with
  | losing => exact hnovel.fresh hanswer (hsound.accounts.session_open hline).1
  | restored _ hpeer _ _ hgood =>
      obtain ⟨good, result, hlinked, hsame, hown⟩ := Answer.exists_of_outcome_ok hgood
      rw [line?, hpeer] at hline
      have hlines : link.line = good.line := (Option.some.inj hline).symm.trans hsame.symm
      rw [hnovel.distinct hanswer hlinked hlines] at hanswer
      obtain ⟨rfl, -⟩ := Answer.linked.inj (hanswer.symm.trans hlinked)
      exact hkey hown
  | dropping _ hpeer | waiting _ hpeer | dialing _ hpeer | dialed _ hpeer | leaving _ hpeer =>
      rw [line?, hpeer] at hline
      cases hline

end Life

end Overlay
