import Overlay.Peer.Traffic

/-!
# The sections of a peer

What each section under the lock of a peer does, and when it does nothing.  To
end a peer takes four sections, between which others may come: the state is
set, waits for a slot are ended, the session is taken and closed, and the
events are cut off.
-/

namespace Overlay.Peer

theorem install_eq_some_iff (peer next : Peer) (line : Nat) :
    peer.install line = some next ↔
      peer.state = .reconnecting ∧
        next = { peer with state := .connected, session := some { line } } := by
  rw [install]
  by_cases hstate : peer.state = .reconnecting
  · simp [hstate, eq_comm]
  · simp [hstate]

theorem install_eq_none_iff (peer : Peer) (line : Nat) :
    peer.install line = none ↔ peer.state ≠ .reconnecting := by
  rw [install]
  by_cases hstate : peer.state = .reconnecting <;> simp [hstate]

theorem adopt_eq_some_iff (peer next : Peer) (line : Nat) :
    peer.adopt line = some next ↔
      peer.state = .reconnecting ∧
        next = { peer with
          state := .connected
          session := some { line }
          handoff := if peer.handoff.isSome then peer.handoff else some line } := by
  rw [adopt, Option.map_eq_some_iff]
  constructor
  · rintro ⟨installed, hinstall, rfl⟩
    obtain ⟨hstate, rfl⟩ := (install_eq_some_iff _ _ _).1 hinstall
    exact ⟨hstate, rfl⟩
  · rintro ⟨hstate, rfl⟩
    exact ⟨_, (install_eq_some_iff _ _ _).2 ⟨hstate, rfl⟩, rfl⟩

theorem adopt_eq_none_iff (peer : Peer) (line : Nat) :
    peer.adopt line = none ↔ peer.state ≠ .reconnecting := by
  rw [adopt, Option.map_eq_none_iff, install_eq_none_iff]

theorem lose_eq_some_iff (peer next : Peer) (stale : Option Nat) :
    peer.lose = some (stale, next) ↔
      peer.state ≠ .disconnected ∧ stale = peer.session.map (·.line) ∧
        next = { peer with state := .reconnecting, session := none } := by
  rw [lose]
  by_cases hstate : peer.state = .disconnected
  · simp [hstate]
  · simp [hstate, takeSession, eq_comm]

theorem lose_eq_none_iff (peer : Peer) : peer.lose = none ↔ peer.state = .disconnected := by
  rw [lose]
  by_cases hstate : peer.state = .disconnected <;> simp [hstate]

theorem exhaust_eq_some_iff (peer next : Peer) :
    peer.exhaust = some next ↔
      peer.state = .reconnecting ∧ next = { peer with state := .disconnected } := by
  rw [exhaust]
  by_cases hstate : peer.state = .reconnecting
  · simp [hstate, eq_comm]
  · simp [hstate]

theorem exhaust_eq_none_iff (peer : Peer) : peer.exhaust = none ↔ peer.state ≠ .reconnecting := by
  rw [exhaust]
  by_cases hstate : peer.state = .reconnecting <;> simp [hstate]

theorem pickUp_eq_some_iff (peer next : Peer) :
    peer.pickUp = some next ↔ peer.handoff ≠ none ∧ next = { peer with handoff := none } := by
  rw [pickUp]
  cases peer.handoff <;> simp [eq_comm]

theorem pickUp_of_handoff {peer : Peer} {line : Nat} (hhandoff : peer.handoff = some line) :
    peer.pickUp = some { peer with handoff := none } := by
  rw [pickUp, hhandoff, Option.map_some]

theorem pickUp_eq_none_iff (peer : Peer) : peer.pickUp = none ↔ peer.handoff = none := by
  rw [pickUp, Option.map_eq_none_iff]

/-- The slots fit in thirty-two bits if there is room for one more than the attempts. -/
theorem exists_slots {peer : Peer} (hattempts : peer.policy.attempts + 1 < UInt32.size) :
    ∃ slots, peer.slots? = some slots := by
  rw [slots?]
  cases peer.direction with
  | inbound => exact ⟨_, if_pos hattempts⟩
  | outbound => exact ⟨_, if_pos (Nat.lt_of_succ_lt hattempts)⟩

/-- The events of a peer that are heard. -/
def told (peer : Peer) (event : PeerEvent) : List PeerEvent :=
  if peer.attached then [event] else []

end Overlay.Peer

namespace Overlay

/-- How far the ending of a peer has come: the section that is next.  Whether the peer was live is
known from the first section on. -/
inductive Teardown
  | marking
  | cancelling (wasLive : Bool)
  | closing (wasLive : Bool)
  | detaching (wasLive : Bool)
  | done (wasLive : Bool)
  deriving DecidableEq

namespace Teardown

/-- The next section of an ending: how far it has come then, the line to close, and the peer. -/
def proceed : Teardown → Peer → Teardown × Option Nat × Peer
  | .marking, peer =>
    (.cancelling (peer.state ≠ .disconnected), none, { peer with state := .disconnected })
  | .cancelling wasLive, peer => (.closing wasLive, none, { peer with cancelled := true })
  | .closing wasLive, peer =>
    let (line, taken) := peer.takeSession
    (.detaching wasLive, line, taken)
  | .detaching wasLive, peer => (.done wasLive, none, { peer with attached := false })
  | .done wasLive, peer => (.done wasLive, none, peer)

/-- All sections of an ending, with nothing between them: whether the peer was live, the line to
close, and the peer. -/
def proceedAll (peer : Peer) : Teardown × Option Nat × Peer :=
  let (marked, _, peer) := Teardown.marking.proceed peer
  let (cancelled, _, peer) := marked.proceed peer
  let (closed, line, peer) := cancelled.proceed peer
  let (detached, _, peer) := closed.proceed peer
  (detached, line, peer)

/-- The sections of an ending one right after the other end a peer. -/
theorem proceedAll_eq (peer : Peer) :
    proceedAll peer =
      (.done peer.teardown.1, peer.teardown.2.1, peer.teardown.2.2) :=
  rfl

end Teardown

end Overlay
