import Overlay.Pool.Supervisor
import Overlay.Proofs.Peer.Lifecycle
import Overlay.Proofs.Pool.Admission

/-!
# Members of a pool and their lives

A world shows the life of a peer if the member of an id is that peer.  What a
section changes in the life, the pool changes in the world.

The lives of peers are stated apart from any pool, and this module connects them
with the program.  A world shows the life of a member from where it has joined
(`Life.shows_enroll`).  The calls of the program that other threads make, a
disconnect (`Shows.exists_disconnect`) and a link that is offered
(`Shows.exists_addPeer`), are calls of others in the life.  A dial may make such
calls while it waits, and is then one that `Interposes`.  There are dials of that
kind, the simplest being one that lets nothing happen (`interposes_answer`).
-/

namespace Overlay

open Wire

namespace Peer

/-- A peer whose supervisor does something. -/
def watched (peer : Peer) (watch : Watch) : Peer :=
  { peer with watch }

variable (peer : Peer) (watch : Watch)

@[simp] theorem watched_id : (peer.watched watch).id = peer.id := rfl

@[simp] theorem watched_identity : (peer.watched watch).identity = peer.identity := rfl

@[simp] theorem watched_endpoint : (peer.watched watch).endpoint = peer.endpoint := rfl

@[simp] theorem watched_direction : (peer.watched watch).direction = peer.direction := rfl

@[simp] theorem watched_handoff : (peer.watched watch).handoff = peer.handoff := rfl

@[simp] theorem watched_cancelled : (peer.watched watch).cancelled = peer.cancelled := rfl

@[simp] theorem watched_session : (peer.watched watch).session = peer.session := rfl

@[simp] theorem watched_watch : (peer.watched watch).watch = watch := rfl

@[simp] theorem watched_state : (peer.watched watch).state = peer.state := rfl

@[simp] theorem watched_closing : (peer.watched watch).closing = peer.closing := rfl

@[simp] theorem install_watched (line : Nat) :
    (peer.watched watch).install line = (peer.install line).map (·.watched watch) := by
  by_cases hstate : peer.state = .reconnecting <;> simp [install, watched, hstate]

@[simp] theorem pickUp_watched :
    (peer.watched watch).pickUp = peer.pickUp.map (·.watched watch) := by
  cases hhandoff : peer.handoff <;> simp [pickUp, watched, hhandoff]

@[simp] theorem exhaust_watched :
    (peer.watched watch).exhaust = peer.exhaust.map (·.watched watch) := by
  by_cases hstate : peer.state = .reconnecting <;> simp [exhaust, watched, hstate]

@[simp] theorem lose_watched :
    (peer.watched watch).lose = peer.lose.map fun lost => (lost.1, lost.2.watched watch) := by
  by_cases hstate : peer.state = .disconnected <;> simp [lose, takeSession, watched, hstate]

@[simp] theorem adopt_watched (line : Nat) :
    (peer.watched watch).adopt line = (peer.adopt line).map (·.watched watch) := by
  by_cases hstate : peer.state = .reconnecting <;> simp [adopt, install, watched, hstate]

@[simp] theorem charge_watched (cause : NetError) :
    (peer.watched watch).charge cause = (peer.charge cause).watched watch := by
  cases cause <;> rfl

theorem teardown_id : peer.teardown.2.2.id = peer.id := rfl

theorem exists_pickUp {peer : Peer} {line : Nat} (hhandoff : peer.handoff = some line) :
    ∃ picked, peer.pickUp = some picked ∧ picked.id = peer.id :=
  ⟨_, pickUp_of_handoff hhandoff, rfl⟩

end Peer

/-- Reading changes neither the line of a session nor the near end of it. -/
theorem Session.hear_kept (session : Session) (line : Line) :
    (session.hear line).2.1.line = session.line ∧
      (session.hear line).2.2.nearOpen = line.nearOpen := by
  unfold hear
  split
  · exact ⟨rfl, rfl⟩
  · split
    · split <;> exact ⟨rfl, rfl⟩
    · exact ⟨rfl, rfl⟩

/-- A message is read on a session. -/
theorem Peer.exists_session_of_read {peer next : Peer} {net after : Net} {message : Message}
    (hread : peer.read net = (.message message, next, after)) :
    ∃ session heard, peer.session = some session ∧ heard.line = session.line ∧
      next = { peer with session := some heard } ∧ after.lines.length = net.lines.length ∧
        ∀ n, (after.line n).nearOpen = (net.line n).nearOpen := by
  rw [read] at hread
  cases hsession : peer.session with
  | none =>
      rw [hsession] at hread
      exact absurd (congrArg Prod.fst hread) nofun
  | some session =>
      obtain ⟨hline, hopen⟩ := session.hear_kept (net.line session.line)
      simp only [hsession, Prod.mk.injEq] at hread
      obtain ⟨-, rfl, rfl⟩ := hread
      refine ⟨session, _, rfl, hline, rfl, List.length_modify .., Net.nearOpen_change net ?_⟩
      rw [hline]
      exact hopen

namespace Pool

/-- The member of an id after a change of the member of that id. -/
theorem member?_change (pool : Pool) {id : Nat} {f : Peer → Peer}
    (hid : ∀ peer, peer.id = id → (f peer).id = id) :
    (pool.change id f).member? id = (pool.member? id).map f := by
  have hkept : (fun peer : Peer => peer.id == id) ∘
      (fun peer => if peer.id = id then f peer else peer) = fun peer => peer.id == id := by
    funext peer
    by_cases hsame : peer.id = id
    · simp [hsame, hid peer hsame]
    · simp [hsame]
  rw [change, member?, List.find?_map, hkept, member?]
  cases hfound : pool.members.find? (·.id == id) with
  | none => rfl
  | some peer =>
      have hsame : peer.id = id := by simpa using List.find?_some hfound
      simp [hsame]

theorem id_of_member? {pool : Pool} {id : Nat} {peer : Peer}
    (hmember : pool.member? id = some peer) : peer.id = id := by
  simpa using List.find?_some hmember

end Pool

namespace Life

/-- A world shows a life: the member of an id has the peer of it, the lines that it was given are
there, and what was closed is closed. -/
structure Shows (id : Nat) (watch : Watch) (world : World) (life : Life) : Prop where
  member : world.pool.member? id = some (life.peer.watched watch)
  known : ∀ line ∈ life.offered, line < world.net.lines.length
  shut : ∀ line ∈ life.shut, (world.net.line line).nearOpen = false

variable {id : Nat} {watch : Watch} {world : World} {first life next : Life}

namespace Shows

theorem id_eq (hshows : Shows id watch world life) : life.peer.id = id :=
  @Pool.id_of_member? _ _ (life.peer.watched watch) hshows.member

/-- A section changes the peer, and what its supervisor does. -/
theorem put (hshows : Shows id watch world life) (now : Watch) {peer : Peer}
    (hid : peer.id = life.peer.id) :
    Shows id now (world.put (peer.watched now)) { life with peer } where
  member := by
    have hsame : (peer.watched now).id = id := hid.trans hshows.id_eq
    rw [World.put, World.withPool, hsame, Pool.member?_change _ (fun _ _ => hsame), hshows.member]
    rfl
  known := hshows.known
  shut := hshows.shut

theorem close (hshows : Shows id watch world life) {line : Nat} (hpeer : next.peer = life.peer)
    (hoffered : next.offered = life.offered) (hshut : next.shut = line :: life.shut) :
    Shows id watch (world.withNet (·.close line)) next where
  member := by
    rw [hpeer]
    exact hshows.member
  known := by
    rw [hoffered, World.withNet, Net.length_close]
    exact hshows.known
  shut := by
    intro other hother
    rw [World.withNet, Net.nearOpen_close]
    rw [hshut, List.mem_cons] at hother
    rcases hother with rfl | hbefore
    · simp
    · rw [hshows.shut other hbefore, Bool.false_and]

/-- The supervisor comes further without a change of the peer. -/
theorem further (hshows : Shows id watch world life) (hpeer : next.peer = life.peer)
    (hoffered : next.offered = life.offered) (hshut : next.shut = life.shut) :
    Shows id watch world next where
  member := by rw [hpeer, hshows.member]
  known := by rw [hoffered]; exact hshows.known
  shut := by rw [hshut]; exact hshows.shut

theorem offer (hshows : Shows id watch world life) {line : Nat}
    (hlt : line < world.net.lines.length) :
    Shows id watch world { life with offered := line :: life.offered } where
  member := hshows.member
  known := List.forall_mem_cons.2 ⟨hlt, hshows.known⟩
  shut := hshows.shut

theorem setWatch (hshows : Shows id watch world life) (now : Watch) :
    Shows id now (world.setWatch id now) life where
  member := by
    have hchange : (world.pool.change id (·.watched now)).member? id =
        (world.pool.member? id).map (·.watched now) := Pool.member?_change _ fun _ hid => hid
    rw [hshows.member] at hchange
    exact hchange
  known := hshows.known
  shut := hshows.shut

theorem emit (hshows : Shows id watch world life) (peer : Peer) (event : PeerEvent) :
    Shows id watch (world.emit peer event) life := by
  rw [World.emit]
  cases peer.attached with
  | false => exact hshows
  | true => exact ⟨hshows.member, hshows.known, hshows.shut⟩

/-- What is read changes no near end of a line. -/
theorem renet (hshows : Shows id watch world life) {net : Net}
    (hlength : net.lines.length = world.net.lines.length)
    (hnet : ∀ n, (net.line n).nearOpen = (world.net.line n).nearOpen) :
    Shows id watch { world with net } life where
  member := hshows.member
  known := by
    rw [hlength]
    exact hshows.known
  shut := fun line hline => (hnet line).trans (hshows.shut line hline)

/-- A peer lets go of its line, which is closed. -/
theorem release (hshows : Shows id watch world life) (now : Watch) {peer : Peer}
    (hid : peer.id = life.peer.id) (stale : Option Nat) :
    Shows id now
      ({ world with net := stale.elim world.net world.net.close }.put (peer.watched now))
      { life with peer, shut := stale.toList ++ life.shut } := by
  cases stale with
  | none => exact hshows.put now hid
  | some line =>
      have hclosed : Shows id watch (world.withNet (·.close line))
          { life with shut := line :: life.shut } := hshows.close rfl rfl rfl
      exact (hclosed.put now hid).further rfl rfl rfl

end Shows

/-- A peer that joins a pool begins its life. -/
theorem shows_enroll {link : Link} (hids : ∀ peer ∈ world.pool.members, peer.id < world.pool.nextId)
    (hlt : link.line < world.net.lines.length) (now : Int64) :
    Shows world.pool.nextId .pumping (world.withPool (·.enroll link now))
      (start world.pool.nextId link world.pool.policy.link) where
  member := by
    have hnobody : world.pool.members.find? (·.id == world.pool.nextId) = none := by
      rw [List.find?_eq_none]
      intro peer hmember
      simpa using Nat.ne_of_lt (hids peer hmember)
    simp only [World.withPool, Pool.enroll, Pool.tell, Pool.member?, List.find?_append, hnobody]
    simp [start, Peer.start, Peer.watched]
  known := by
    intro line hline
    rw [start, List.mem_singleton] at hline
    rw [hline]
    exact hlt
  shut := nofun

/-! ## The calls of others -/

theorem Run.stage_eq {count : Nat} (hrun : Run life count next) (hcount : count = 0) :
    next.stage = life.stage := by
  induction hrun with
  | refl => rfl
  | supervise => exact absurd hcount (Nat.succ_ne_zero _)
  | interpose hrun hmeanwhile ih => exact hmeanwhile.stage_eq.trans (ih hcount)

theorem Run.trans {count more : Nat} (hrun : Run first count life) (hmore : Run life more next) :
    Run first (count + more) next := by
  induction hmore with
  | refl => exact hrun
  | supervise _ hsupervised ih => exact ih.supervise hsupervised
  | interpose _ hmeanwhile ih => exact ih.interpose hmeanwhile

/-- A call that ends the peer goes through all sections of the ending. -/
theorem Run.call : Run life 0 { life with
    peer := life.peer.teardown.2.2
    calls := .done life.peer.teardown.1 :: life.calls
    shut := life.peer.teardown.2.1.toList ++ life.shut } := by
  have hcalled := (@Run.refl life).interpose .call
  have hmarked := hcalled.interpose (@Meanwhile.proceed _ [] _ _ _ _ _ rfl rfl nofun)
  have hcancelled := hmarked.interpose (@Meanwhile.proceed _ [] _ _ _ _ _ rfl rfl nofun)
  have hclosed := hcancelled.interpose (@Meanwhile.proceed _ [] _ _ _ _ _ rfl rfl nofun)
  have hdetached := hclosed.interpose (@Meanwhile.proceed _ [] _ _ _ _ _ rfl rfl nofun)
  exact hdetached

/-- Whoever ends the member goes through the sections of an ending. -/
theorem Shows.exists_disconnect (hshows : Shows id watch world life) :
    ∃ after later, world.disconnect id = some (life.peer.teardown.1, after) ∧ Run life 0 later ∧
      Shows id watch after later := by
  have hreleased := hshows.release watch life.peer.teardown_id life.peer.teardown.2.1
  refine ⟨_, _, ?_, Run.call, hreleased.further rfl rfl rfl⟩
  rw [World.disconnect, hshows.member, World.put,
    show (life.peer.teardown.2.2.watched watch).id = id from hshows.id_eq]
  rfl

/-- Whoever offers a line to the member lets it resume on it, or closes it. -/
theorem Shows.exists_addPeer (hshows : Shows id watch world life) {link : Link}
    (hself : link.identity.publicKey ≠ world.pool.localKey)
    (hkey : world.pool.withKey? link.identity.publicKey = some (life.peer.watched watch))
    (hlt : link.line < world.net.lines.length) (hnew : link.line ∉ life.offered) :
    ∃ later, Run life 0 later ∧ Shows id watch (world.addPeer link).2 later := by
  have hsame : (life.peer.watched watch).id = id := hshows.id_eq
  cases hadopt : life.peer.adopt link.line with
  | none =>
      have hrefused := World.addPeer_refused hself hkey (by rw [Peer.adopt_watched, hadopt]; rfl)
      rw [hrefused]
      exact ⟨_, Run.refl.interpose (.decline hnew hadopt), (hshows.offer hlt).close rfl rfl rfl⟩
  | some adopted =>
      have hid : adopted.id = life.peer.id := by
        obtain ⟨-, rfl⟩ := (Peer.adopt_eq_some_iff _ _ _).1 hadopt
        rfl
      have hresumed := World.addPeer_resumed hself hkey
        (show _ = some (adopted.watched watch) by rw [Peer.adopt_watched, hadopt]; rfl)
      rw [hresumed]
      have hshown := (hshows.offer hlt).put watch hid
      rw [World.put, show (adopted.watched watch).id = id from hid.trans hshows.id_eq] at hshown
      rw [hsame]
      exact ⟨_, Run.refl.interpose (.adopt hnew hadopt), hshown.further rfl rfl rfl⟩

/-- What dialing lets happen to the member of an id is what the calls of others do, and a line that
it opens is new. -/
def Interposes (id : Nat) (dial : Dial) : Prop :=
  ∀ watch endpoint world life, life.Accounts → Shows id watch world life →
    ∃ later, Run life 0 later ∧ Shows id watch (dial endpoint world).2 later ∧
      ∀ link, (dial endpoint world).1 = .ok link → link.line ∉ later.offered ∧
        link.line < (dial endpoint world).2.net.lines.length

/-- A dial that opens a line and lets nothing happen meanwhile. -/
theorem interposes_answer (id : Nat) (callee : Callee) :
    Interposes id fun endpoint world =>
      let (link, net) := world.net.answer endpoint callee
      (.ok link, { world with net }) := by
  intro watch endpoint world life haccounts hshows
  have hlength := Net.length_newLine world.net
  refine ⟨life, .refl, ⟨hshows.member, fun line hline => ?_, fun line hline => ?_⟩, ?_⟩
  · exact Nat.lt_of_lt_of_eq (Nat.lt_succ_of_lt (hshows.known line hline)) hlength.symm
  · have hlt := hshows.known line (haccounts.mem_offered hline)
    refine (Net.nearOpen_newLine world.net line).trans ?_
    simp [hshows.shut line hline, Nat.ne_of_lt hlt]
  · rintro link ⟨rfl⟩
    refine ⟨fun hmem => ?_, ?_⟩
    · exact Nat.lt_irrefl _ (hshows.known _ hmem)
    · exact Nat.lt_of_lt_of_eq (Nat.lt_succ_self _) hlength.symm

end Life

end Overlay
