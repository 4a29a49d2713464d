import Mathlib.Tactic.SplitIfs
import Overlay.Proofs.Pool.Showing

/-!
# What supervisors do

The supervisor of a member of a pool goes through the sections of the life of
a peer.  What a dial lets happen to the member meanwhile is what other calls
do, whatever else becomes of the world.

So what is shown of the runs of lives holds of the supervisors of the program
(`rested_supervise`).  In particular a supervisor panics only where the slots of
its peer cannot be counted, and there it does panic.
-/

namespace Overlay.Life

variable {id : Nat} {watch : Watch} {world : World} {first life : Life}

namespace Shows

/-! ## Looking for a line -/

/-- A line that was left is picked up. -/
theorem handedOff_some (hshows : Shows id watch world life) {picked : Peer}
    (hpick : life.peer.pickUp = some picked) :
    world.handedOff id = (.restored, world.put (picked.watched watch)) := by
  simp [World.handedOff, hshows.member, hpick]

/-- Without a line the peer was ended. -/
theorem handedOff_none (hshows : Shows id watch world life) (hpick : life.peer.pickUp = none) :
    world.handedOff id = (.cancelled, world) := by
  simp [World.handedOff, hshows.member, hpick]

theorem redialed_some (hshows : Shows id watch world life) {link : Link} {installed : Peer}
    (hinstall : life.peer.install link.line = some installed) :
    world.redialed id link = (.restored, world.put (installed.watched watch)) := by
  simp [World.redialed, hshows.member, hinstall]

theorem redialed_none (hshows : Shows id watch world life) {link : Link}
    (hinstall : life.peer.install link.line = none) :
    world.redialed id link = (world.withNet (·.close link.line)).handedOff id := by
  simp [World.redialed, hshows.member, hinstall]

/-! ### One slot of a search -/

section Slots

variable {dial : Dial} {slots : Nat} {last : NetError}

theorem search_left (hshows : Shows id watch world life) {line : Nat}
    (hhandoff : life.peer.handoff = some line) :
    world.search dial id (slots + 1) last = world.handedOff id := by
  simp [World.search, hshows.member, hhandoff]

theorem search_cancelled (hshows : Shows id watch world life) (hhandoff : life.peer.handoff = none)
    (hcancelled : life.peer.cancelled = true) :
    world.search dial id (slots + 1) last = (.cancelled, world) := by
  simp [World.search, hshows.member, hhandoff, hcancelled]

variable (hshows : Shows id watch world life) (hhandoff : life.peer.handoff = none)
  (hcancelled : life.peer.cancelled = false)

include hshows hhandoff hcancelled

theorem search_skip (hdirection : life.peer.direction = .inbound) :
    world.search dial id (slots + 1) last = world.search dial id slots last := by
  rw [World.search, hshows.member]
  simp [hhandoff, hcancelled, hdirection]

variable (hdirection : life.peer.direction = .outbound) {after : World}

include hdirection

theorem search_missed {cause : NetError}
    (hdialed : dial life.peer.endpoint world = (.error cause, after)) :
    world.search dial id (slots + 1) last = after.search dial id slots cause := by
  rw [World.search, hshows.member]
  simp [hhandoff, hcancelled, hdirection, hdialed]

theorem search_answered {link : Link} (hdialed : dial life.peer.endpoint world = (.ok link, after))
    (hkey : link.identity.publicKey = life.peer.identity.publicKey) :
    world.search dial id (slots + 1) last = after.redialed id link := by
  rw [World.search, hshows.member]
  simp [hhandoff, hcancelled, hdirection, hdialed, hkey]

theorem search_mistaken {link : Link} (hdialed : dial life.peer.endpoint world = (.ok link, after))
    (hkey : link.identity.publicKey ≠ life.peer.identity.publicKey) :
    world.search dial id (slots + 1) last =
      (after.withNet (·.close link.line)).search dial id slots (.handshake .keyChanged) := by
  rw [World.search, hshows.member]
  simp [hhandoff, hcancelled, hdirection, hdialed, hkey]

end Slots

end Shows

/-- Where a search leaves the supervisor. -/
def LeftBy (life : Life) : Search → Prop
  | .restored => ∃ line, life.stage = .restored line
  | .cancelled => life.stage = .gone
  | .exhausted cause => life.stage = .leaving cause

/-- A run with the world that shows where it has led, after a search. -/
def Found (first : Life) (id : Nat) (watch : Watch) (searched : Search × World) : Prop :=
  ∃ count life, Run first count life ∧ Shows id watch searched.2 life ∧ life.LeftBy searched.1

/-- A supervisor that was told not to wait any more looks for a line that was left. -/
theorem found_collecting {count : Nat} (hrun : Run first count life)
    (hshows : Shows id watch world life) (hstage : life.stage = .collecting) :
    Found first id watch (world.handedOff id) := by
  cases hhandoff : life.peer.handoff with
  | none =>
      have hpick := (Peer.pickUp_eq_none_iff _).2 hhandoff
      rw [hshows.handedOff_none hpick]
      exact ⟨_, _, hrun.supervise (.abandon hstage hpick), hshows.further rfl rfl rfl, rfl⟩
  | some line =>
      obtain ⟨picked, hpick, hid⟩ := Peer.exists_pickUp hhandoff
      rw [hshows.handedOff_some hpick]
      exact ⟨_, _, hrun.supervise (.collect hstage hhandoff hpick),
        (hshows.put watch hid).further rfl rfl rfl, line, rfl⟩

/-- A supervisor goes on with the line that a dial has opened. -/
theorem found_dialed {count slots : Nat} {last : NetError} {link : Link}
    (hrun : Run first count life) (hshows : Shows id watch world life)
    (hstage : life.stage = .dialed slots last link.line) :
    Found first id watch (world.redialed id link) := by
  cases hinstall : life.peer.install link.line with
  | some installed =>
      obtain ⟨-, hinstalled⟩ := (Peer.install_eq_some_iff _ _ _).1 hinstall
      rw [hshows.redialed_some hinstall]
      exact ⟨_, _, hrun.supervise (.install hstage hinstall),
        (hshows.put watch (by rw [hinstalled])).further rfl rfl rfl, link.line, rfl⟩
  | none =>
      rw [hshows.redialed_none hinstall]
      -- the line is closed before the supervisor looks for another one
      have hclosed : Shows id watch (world.withNet (·.close link.line))
          { life with shut := link.line :: life.shut } := hshows.close rfl rfl rfl
      cases hhandoff : life.peer.handoff with
      | none =>
          have hpick := (Peer.pickUp_eq_none_iff _).2 hhandoff
          rw [hclosed.handedOff_none hpick]
          exact ⟨_, _, hrun.supervise (.refused hstage hinstall hpick),
            hclosed.further rfl rfl rfl, rfl⟩
      | some line =>
          obtain ⟨picked, hpick, hid⟩ := Peer.exists_pickUp hhandoff
          rw [hclosed.handedOff_some hpick]
          exact ⟨_, _, hrun.supervise (.overtaken hstage hinstall hhandoff hpick),
            (hclosed.put watch hid).further rfl rfl rfl, line, rfl⟩

/-- **What a supervisor does to find a line is a run of the life of its peer**, whatever the dials
come to and whatever happens meanwhile. -/
theorem found_search {dial : Dial} (hdial : Interposes id dial) (hfirst : first.Sound)
    {count slots : Nat} {last : NetError} (hrun : Run first count life)
    (hshows : Shows id watch world life) (hstage : life.stage = .waiting slots last) :
    Found first id watch (world.search dial id slots last) := by
  -- over the slots, each of which may lead to another life and another world
  induction slots generalizing count last life world with
  | zero =>
      rw [World.search, hshows.member, Option.bind_some, Peer.exhaust_watched]
      cases hexhaust : life.peer.exhaust with
      | some exhausted =>
          obtain ⟨-, hexhausted⟩ := (Peer.exhaust_eq_some_iff _ _).1 hexhaust
          exact ⟨_, _, hrun.supervise (.exhaust hstage hexhaust),
            (hshows.put watch (by rw [hexhausted])).further rfl rfl rfl, rfl⟩
      | none =>
          exact found_collecting (hrun.supervise (.spared hstage hexhaust))
            (hshows.further rfl rfl rfl) rfl
  | succ slots ih =>
      cases hhandoff : life.peer.handoff with
      | some line =>
          obtain ⟨picked, hpick, hid⟩ := Peer.exists_pickUp hhandoff
          rw [hshows.search_left hhandoff, hshows.handedOff_some hpick]
          exact ⟨_, _, hrun.supervise (.receive hstage hhandoff hpick),
            (hshows.put watch hid).further rfl rfl rfl, line, rfl⟩
      | none =>
          cases hcancelled : life.peer.cancelled with
          | true =>
              rw [hshows.search_cancelled hhandoff hcancelled]
              exact ⟨_, _, hrun.supervise (.cancel hstage hcancelled),
                hshows.further rfl rfl rfl, rfl⟩
          | false =>
              cases hdirection : life.peer.direction with
              | inbound =>
                  rw [hshows.search_skip hhandoff hcancelled hdirection]
                  exact ih (hrun.supervise (.skip hstage hdirection))
                    (hshows.further rfl rfl rfl) rfl
              | outbound =>
                  -- others go on while the dial lasts, and leave the supervisor where it is
                  have hdialing := hrun.supervise (.dial hstage hdirection)
                  obtain ⟨later, hlater, hshown, hfresh⟩ := hdial watch life.peer.endpoint world
                    { life with stage := .dialing slots last } (hdialing.sound hfirst).accounts
                    (hshows.further rfl rfl rfl)
                  have hcalled := hdialing.trans hlater
                  have hstays : later.stage = .dialing slots last := hlater.stage_eq rfl
                  have hidentity : later.peer.identity = life.peer.identity :=
                    hlater.sameSetup.identity
                  rcases hdialed : dial life.peer.endpoint world with ⟨result, after⟩
                  rw [hdialed] at hshown hfresh
                  cases result with
                  | error cause =>
                      rw [hshows.search_missed hhandoff hcancelled hdirection hdialed]
                      exact ih (hcalled.supervise (.missed hstays cause))
                        (hshown.further rfl rfl rfl) rfl
                  | ok link =>
                      obtain ⟨hnew, hlt⟩ := hfresh link rfl
                      by_cases hkey : link.identity.publicKey = life.peer.identity.publicKey
                      · rw [hshows.search_answered hhandoff hcancelled hdirection hdialed hkey]
                        rw [← hidentity] at hkey
                        exact found_dialed (hcalled.supervise (.answered hstays hkey hnew))
                          ((hshown.offer hlt).further rfl rfl rfl) rfl
                      · rw [hshows.search_mistaken hhandoff hcancelled hdirection hdialed hkey]
                        rw [← hidentity] at hkey
                        exact ih (hcalled.supervise (.mistaken hstays hkey hnew))
                          ((hshown.offer hlt).close rfl rfl rfl) rfl

/-! ## The turn of a supervisor -/

/-- What a supervisor is seen to do, by where it stands. -/
inductive Attends (life : Life) : Watch → Prop
  | pumping {line : Nat} (hstage : life.stage = .pumping line) : Attends life .pumping
  | waiting {slots : Nat} (hslots : life.peer.slots? = some slots)
      (hstage : life.stage = .waiting slots life.peer.notConnected) : Attends life .waiting
  | ended (hstage : life.stage = .gone) : Attends life .ended
  | panicked {stale : Option Nat} (hslots : life.peer.slots? = none)
      (hstage : life.stage = .dropping stale) : Attends life .panicked

/-- A run with the world that shows where it has led, between two turns of the supervisor. -/
def Rested (first : Life) (id : Nat) (world : World) : Prop :=
  ∃ count life watch, Run first count life ∧ Shows id watch world life ∧ life.Attends watch

/-- A supervisor that ends the peer goes through all sections of the ending. -/
theorem Run.tear {count : Nat} (hrun : Run first count life)
    (hstage : life.stage = .tearing .marking) :
    ∃ more, Run first more { life with
      peer := life.peer.teardown.2.2
      stage := .gone
      shut := life.peer.teardown.2.1.toList ++ life.shut } := by
  have hmarked := hrun.supervise (.tear hstage rfl nofun)
  have hcancelled := hmarked.supervise (.tear rfl rfl nofun)
  have hclosed := hcancelled.supervise (.tear rfl rfl nofun)
  have hdetached := hclosed.supervise (.tear rfl rfl nofun)
  exact ⟨_, hdetached.supervise (.finish rfl)⟩

theorem rested_abandon {count : Nat} {cause : NetError} (hrun : Run first count life)
    (hshows : Shows id watch world life) (hstage : life.stage = .leaving cause) :
    Rested first id (world.abandon id cause) := by
  have habandon : world.abandon id cause =
      ({ world with net := life.peer.teardown.2.1.elim world.net world.net.close }.put
        (life.peer.teardown.2.2.watched .ended)).emit (life.peer.watched watch)
          (.unreachable id cause) := by
    rw [World.abandon, hshows.member]
    rfl
  obtain ⟨more, hgone⟩ := (hrun.supervise (.report hstage)).tear rfl
  have hreleased := hshows.release .ended life.peer.teardown_id life.peer.teardown.2.1
  rw [habandon]
  exact ⟨more, _, .ended, hgone, (hreleased.emit _ _).further rfl rfl rfl, .ended rfl⟩

/-- A supervisor goes on after a search. -/
theorem Found.rested {searched : Search × World} (hfound : Found first id watch searched) :
    Rested first id (World.settleSearch id searched) := by
  obtain ⟨count, life, hrun, hshows, hleft⟩ := hfound
  obtain ⟨result, world⟩ := searched
  cases result with
  | restored =>
      obtain ⟨line, hstage⟩ := hleft
      have hsettle : World.settleSearch id (.restored, world) =
          (world.put (life.peer.watched .pumping)).emit (life.peer.watched watch)
            (.reconnected id) := by
        rw [World.settleSearch, hshows.member]
        rfl
      rw [hsettle]
      exact ⟨_, _, .pumping, hrun.supervise (.announce hstage),
        ((hshows.put .pumping rfl).emit _ _).further rfl rfl rfl, .pumping rfl⟩
  | cancelled => exact ⟨count, life, .ended, hrun, hshows.setWatch .ended, .ended hleft⟩
  | exhausted cause => exact rested_abandon hrun hshows hleft

/-- A supervisor looks for a line, or puts that off. -/
theorem rested_await {dial : Dial} (hdial : Interposes id dial) (hfirst : first.Sound)
    {count slots : Nat} (hrun : Run first count life) (hshows : Shows id watch world life)
    (hslots : life.peer.slots? = some slots)
    (hstage : life.stage = .waiting slots life.peer.notConnected) :
    Rested first id (world.await dial (life.peer.watched watch)) := by
  have hsame : (life.peer.watched watch).id = id := hshows.id_eq
  have hslotsHere : (life.peer.watched watch).slots? = some slots := hslots
  simp only [World.await, hslotsHere, hsame, Peer.watched_handoff, Peer.watched_cancelled]
  -- only a wait for a slot is put off
  have hslot (hpatient : (Overlay.patience ≤ (life.peer.watched watch).policy.delay &&
      decide (slots ≠ 0)) = true) :
      ∃ more, slots = more + 1 :=
    Nat.exists_eq_succ_of_ne_zero (by simpa using (Bool.and_eq_true_iff.1 hpatient).2)
  split_ifs with hpatient hhandoff hcancelled
  · obtain ⟨line, hline⟩ := Option.isSome_iff_exists.1 hhandoff
    obtain ⟨picked, hpick, hid⟩ := Peer.exists_pickUp hline
    obtain ⟨more, rfl⟩ := hslot hpatient
    rw [hshows.handedOff_some hpick]
    exact Found.rested ⟨_, _, hrun.supervise (.receive hstage hline hpick),
      (hshows.put watch hid).further rfl rfl rfl, line, rfl⟩
  · obtain ⟨more, rfl⟩ := hslot hpatient
    exact ⟨_, _, .ended, hrun.supervise (.cancel hstage hcancelled),
      (hshows.setWatch .ended).further rfl rfl rfl, .ended rfl⟩
  · exact ⟨_, life, .waiting, hrun, hshows.setWatch .waiting, .waiting hslots hstage⟩
  · exact (found_search hdial hfirst hrun hshows hstage).rested

theorem sessionEnded_eq (dial : Dial) (world : World) (peer : Peer) (cause : NetError) :
    world.sessionEnded dial peer cause =
      let charged := peer.charge cause
      let world := world.put charged
      if charged.state = .disconnected then world.setWatch charged.id .ended
      else if charged.closing then world.abandon charged.id cause
      else
        match charged.lose with
        | none => world.setWatch charged.id .ended
        | some (line, lost) =>
          ({ world with net := line.elim world.net world.net.close }.put lost).await dial lost := by
  cases cause <;> rfl

/-- Slots that cannot be counted are a panic. -/
theorem Shows.await_panicked (hshows : Shows id watch world life)
    (hslots : life.peer.slots? = none) (dial : Dial) :
    world.await dial (life.peer.watched watch) = world.setWatch id .panicked := by
  have hsame : (life.peer.watched watch).id = id := hshows.id_eq
  have hslotsHere : (life.peer.watched watch).slots? = none := hslots
  rw [World.await, hslotsHere, hsame]

/-- A supervisor gives up a session, closes its line and looks for another, or panics. -/
theorem rested_lose {dial : Dial} (hdial : Interposes id dial) (hfirst : first.Sound)
    {count line : Nat} (hrun : Run first count life) (hshows : Shows id watch world life)
    (hstage : life.stage = .losing line) {stale : Option Nat} {lost : Peer}
    (hlose : life.peer.lose = some (stale, lost)) :
    Rested first id
      (({ world with net := stale.elim world.net world.net.close }.put (lost.watched watch)).await
        dial (lost.watched watch)) := by
  obtain ⟨-, -, hlost⟩ := (Peer.lose_eq_some_iff _ _ _).1 hlose
  have hid : lost.id = life.peer.id := by rw [hlost]
  have hwaits := hrun.supervise (.lose hstage hlose)
  have hshown := hshows.release watch hid stale
  cases hslots : lost.slots? with
  | none =>
      -- the line is closed, but the life goes no further than to the drop
      have hlast := hshown.setWatch .panicked
      rw [hshown.await_panicked hslots]
      exact ⟨_, _, .panicked, hwaits, ⟨hlast.member, hlast.known,
        fun line hline => hlast.shut line (List.mem_append_right _ hline)⟩, .panicked hslots rfl⟩
  | some slots =>
      exact rested_await hdial hfirst (hwaits.supervise (.drop rfl hslots))
        (hshown.further rfl rfl rfl) hslots rfl

/-- **What a supervisor does when a session has ended is a run of the life of its peer.** -/
theorem rested_sessionEnded {dial : Dial} (hdial : Interposes id dial) (hfirst : first.Sound)
    {count line : Nat} (hrun : Run first count life) (hshows : Shows id .pumping world life)
    (hstage : life.stage = .pumping line) (cause : NetError) :
    Rested first id (world.sessionEnded dial (life.peer.watched .pumping) cause) := by
  have hid : (life.peer.charge cause).id = life.peer.id := by
    cases cause <;> rfl
  have hsame : ((life.peer.charge cause).watched .pumping).id = id := hid.trans hshows.id_eq
  have hstopped := hrun.supervise (.stop hstage cause)
  have hshown := hshows.put .pumping hid
  rw [sessionEnded_eq, Peer.charge_watched]
  generalize life.peer.charge cause = charged at *
  dsimp only
  rw [hsame, Peer.watched_state, Peer.watched_closing]
  by_cases hended : charged.state = .disconnected
  · rw [if_pos hended]
    exact ⟨_, _, .ended, hstopped.supervise (.leave rfl hended),
      (hshown.setWatch .ended).further rfl rfl rfl, .ended rfl⟩
  · have hlive := hstopped.supervise (.live rfl hended)
    rw [if_neg hended]
    cases hclosing : charged.closing with
    | true =>
        rw [if_pos rfl]
        exact rested_abandon (hlive.supervise (.part rfl hclosing)) (hshown.further rfl rfl rfl) rfl
    | false =>
        rw [if_neg Bool.false_ne_true]
        have hstays := hlive.supervise (.stay rfl hclosing)
        obtain ⟨⟨stale, lost⟩, hlose⟩ : ∃ given, charged.lose = some given :=
          Option.ne_none_iff_exists'.1 fun hnone => hended ((Peer.lose_eq_none_iff _).1 hnone)
        rw [Peer.lose_watched, hlose]
        exact rested_lose hdial hfirst hstays (hshown.further rfl rfl rfl) rfl hlose

/-- A member whose supervisor was lost makes the pool one that has panicked. -/
theorem Shows.panicked (hshows : Shows id .panicked world life) : world.pool.panicked = true :=
  List.any_eq_true.2 ⟨_, List.mem_of_find?_eq_some hshows.member, rfl⟩

/-- The end of a session is a panic for a live peer whose slots cannot be counted. -/
theorem Shows.sessionEnded_panicked (hshows : Shows id watch world life)
    (hslots : life.peer.slots? = none) (hstate : life.peer.state ≠ .disconnected)
    (hclosing : life.peer.closing = false) (dial : Dial) (cause : NetError) :
    (world.sessionEnded dial (life.peer.watched watch) cause).pool.panicked = true := by
  obtain ⟨breaches, hcharge⟩ := life.peer.exists_charge cause
  have hid : (life.peer.charge cause).id = life.peer.id := by rw [hcharge]
  have hlive : (life.peer.charge cause).state ≠ .disconnected := by rw [hcharge]; exact hstate
  have hstays : (life.peer.charge cause).closing = false := by rw [hcharge]; exact hclosing
  have hcount : (life.peer.charge cause).slots? = none := by rw [hcharge]; exact hslots
  rw [sessionEnded_eq, Peer.charge_watched]
  generalize life.peer.charge cause = charged at *
  obtain ⟨⟨stale, lost⟩, hlose⟩ : ∃ given, charged.lose = some given :=
    Option.ne_none_iff_exists'.1 fun hnone => hlive ((Peer.lose_eq_none_iff _).1 hnone)
  obtain ⟨-, -, hlost⟩ := (Peer.lose_eq_some_iff _ _ _).1 hlose
  -- the session is given up, and then the slots are counted
  have hwaits := (hshows.put watch hid).release watch
    (show lost.id = charged.id by rw [hlost]) stale
  have hawait := hwaits.await_panicked (show lost.slots? = none by rw [hlost]; exact hcount) dial
  dsimp only
  rw [Peer.watched_state, if_neg hlive, Peer.watched_closing, hstays, if_neg Bool.false_ne_true,
    Peer.lose_watched, hlose, Option.map_some]
  dsimp only
  rw [hawait]
  exact (hwaits.setWatch .panicked).panicked

/-- Forwarding messages leaves the supervisor where it is. -/
theorem Shows.pump {fuel count line : Nat} (hrun : Run first count life)
    (hshows : Shows id .pumping world life) (hstage : life.stage = .pumping line) :
    ∃ more later, Run first more later ∧ Shows id .pumping (World.pump id fuel world).2 later ∧
      later.stage = .pumping line := by
  -- over the messages that a turn may read
  induction fuel generalizing count life world with
  | zero => exact ⟨count, life, hrun, hshows, hstage⟩
  | succ fuel ih =>
      rcases hread : (life.peer.watched .pumping).read world.net with ⟨heard, peer, net⟩
      cases heard with
      | nothing | ended cause =>
          simp only [World.pump, hshows.member, hread]
          exact ⟨count, life, hrun, hshows, hstage⟩
      | message message =>
          obtain ⟨session, heard, hsession, hline, rfl, hlength, hnet⟩ :=
            Peer.exists_session_of_read hread
          simp only [World.pump, hshows.member, hread]
          -- the session moves on, and then the peer takes the message in
          have hmoved := hrun.interpose (.traffic hsession hline)
          have hheard := hmoved.supervise (@Supervised.hear
            { life with peer := { life.peer with session := some heard } } line hstage message)
          have hid : (({ life.peer with session := some heard } : Peer).hear message).id =
              life.peer.id := rfl
          have hshown := (((hshows.renet hlength hnet).put .pumping hid).emit
            { life.peer.watched .pumping with session := some heard } (.message id message))
          exact ih hheard (hshown.further rfl rfl rfl) hstage

/-- How many messages a turn reads at most: one for each byte that has arrived, and one more. -/
def turn (world : World) (peer : Peer) : Nat :=
  (peer.session.elim 0 fun session => (world.net.line session.line).arriving.length) + 1

theorem Shows.supervise_pumping (hshows : Shows id .pumping world life) {dial : Dial}
    {after : World} (hpump : World.pump id (turn world life.peer) world = (none, after)) :
    world.supervise dial id = after := by
  rw [turn] at hpump
  simp only [World.supervise, hshows.member, Peer.watched_watch, Peer.watched_session, hpump]

theorem Shows.supervise_ended (hshows : Shows id .pumping world life) {dial : Dial}
    {after : World} {cause : NetError} {peer : Peer}
    (hpump : World.pump id (turn world life.peer) world = (some cause, after))
    (hmember : after.pool.member? id = some peer) :
    world.supervise dial id = after.sessionEnded dial peer cause := by
  rw [turn] at hpump
  simp only [World.supervise, hshows.member, Peer.watched_watch, Peer.watched_session, hpump,
    hmember]

/-- **A turn of a supervisor is a run of the life of its peer**: from any point at which a world
shows a life, the supervisor does what the sections of it allow, and stops where it has to wait or
where it panics. -/
theorem rested_supervise {dial : Dial} (hdial : Interposes id dial) (hfirst : first.Sound)
    {count : Nat} (hrun : Run first count life) (hshows : Shows id watch world life)
    (hattends : life.Attends watch) :
    Rested first id (world.supervise dial id) := by
  cases hattends with
  | ended hstage =>
      have hsupervise : world.supervise dial id = world := by
        rw [World.supervise, hshows.member]
        rfl
      rw [hsupervise]
      exact ⟨count, life, .ended, hrun, hshows, .ended hstage⟩
  | panicked hslots hstage =>
      have hsupervise : world.supervise dial id = world := by
        rw [World.supervise, hshows.member]
        rfl
      rw [hsupervise]
      exact ⟨count, life, .panicked, hrun, hshows, .panicked hslots hstage⟩
  | waiting hslots hstage =>
      have hsupervise : world.supervise dial id =
          world.await dial (life.peer.watched .waiting) := by
        rw [World.supervise, hshows.member]
        rfl
      rw [hsupervise]
      exact rested_await hdial hfirst hrun hshows hslots hstage
  | @pumping line hstage =>
      obtain ⟨more, later, hlater, hshown, hstays⟩ :=
        @Shows.pump id world first life (turn world life.peer) count line hrun hshows hstage
      rcases hpump : World.pump id (turn world life.peer) world with ⟨ended, after⟩
      rw [hpump] at hshown
      cases ended with
      | none =>
          rw [hshows.supervise_pumping hpump]
          exact ⟨more, later, .pumping, hlater, hshown, .pumping hstays⟩
      | some cause =>
          rw [hshows.supervise_ended hpump hshown.member]
          exact rested_sessionEnded hdial hfirst hlater hshown hstays cause

end Overlay.Life
