import Overlay.Proofs.Pool.Identities

/-!
# Authentication and admission

A node that dials in is asked first whether it may join, and its link is
offered to the pool later.  If nothing comes in between, a link is refused
after its node was told that it may join exactly if the node is a member that
was ended and has not left.  No node joins that was told that it may not.
-/

namespace Overlay

/-- A node may join if it has another key than the own one, and is a member that is not connected or
neither its key nor its endpoint is known. -/
theorem Pool.authenticate_eq_ok_iff {pool : Pool} {identity : Identity} {e : Endpoint} :
    pool.authenticate identity e = .ok () ↔ identity.publicKey ≠ pool.localKey ∧
      ((∃ peer, pool.withKey? identity.publicKey = some peer ∧ peer.state ≠ .connected) ∨
        pool.withKey? identity.publicKey = none ∧ pool.atEndpoint? e = none) := by
  rw [authenticate]
  by_cases hself : identity.publicKey = pool.localKey
  · simp [hself]
  · cases hkey : pool.withKey? identity.publicKey with
    | some peer =>
        by_cases hstate : peer.state = .connected <;> simp [hself, Peer.isAvailable, hstate]
    | none => cases hendpoint : pool.atEndpoint? e <;> simp [hself]

namespace World

variable {world : World} {link : Link}

/-- The node of a link joins, or is resumed. -/
def Takes (world : World) (link : Link) : Prop :=
  ∃ id, (world.addPeer link).1 = .ok (.added id) ∨ (world.addPeer link).1 = .ok (.resumed id)

/-- A member with the key of a link is resumed if it waits for one, and the link is refused if it
does not. -/
theorem takes_iff_of_withKey? (hself : link.identity.publicKey ≠ world.pool.localKey) {peer : Peer}
    (hkey : world.pool.withKey? link.identity.publicKey = some peer) :
    world.Takes link ↔ peer.state = .reconnecting := by
  rw [Takes]
  by_cases hstate : peer.state = .reconnecting
  · have hadopt := (Peer.adopt_eq_some_iff peer _ link.line).2 ⟨hstate, rfl⟩
    rw [addPeer_resumed hself hkey hadopt]
    exact ⟨fun _ => hstate, fun _ => ⟨peer.id, Or.inr rfl⟩⟩
  · rw [addPeer_refused hself hkey ((Peer.adopt_eq_none_iff _ _).2 hstate)]
    refine ⟨?_, fun hwaits => absurd hwaits hstate⟩
    rintro ⟨id, hadded | hresumed⟩
    · exact absurd hadded nofun
    · exact absurd hresumed nofun

/-- Only a node that may join does. -/
theorem authenticate_of_added {id : Nat} (hadded : (world.addPeer link).1 = .ok (.added id)) :
    world.pool.authenticate link.identity link.endpoint = .ok () := by
  rcases world.addPeer_cases link with ⟨hself, hkey, hendpoint, -⟩ |
    ⟨-, peer, adopted, -, -, hresumed⟩ | ⟨-, hresult⟩
  · exact Pool.authenticate_eq_ok_iff.2 ⟨hself, Or.inr ⟨hkey, hendpoint⟩⟩
  · rw [hresumed] at hadded
    exact absurd hadded nofun
  · exact absurd hadded (hresult id).1

end World

namespace ConcurrentPool

variable {s : ConcurrentPool}

/-- A link is taken whose node was told that it may join, unless the node is a member that was
ended. -/
theorem Sound.takes_iff (hsound : s.Sound) {link : Link}
    (hok : s.world.pool.authenticate link.identity link.endpoint = .ok ()) :
    s.world.Takes link ↔ ∀ peer ∈ s.world.pool.members,
      peer.identity.publicKey = link.identity.publicKey → peer.state ≠ .disconnected := by
  obtain ⟨hself, ⟨peer, hkey, hstate⟩ | ⟨hkey, hendpoint⟩⟩ := Pool.authenticate_eq_ok_iff.1 hok
  · obtain ⟨hmember, hsame⟩ := Pool.mem_of_withKey? hkey
    have hsettled : peer.state ≠ .connecting :=
      (hsound.members peer.gist (Pool.mem_gists hmember)).settled
    rw [World.takes_iff_of_withKey? hself hkey]
    constructor
    · intro hwaits other hother hkey
      obtain rfl := hsound.orderly.eq_of_key hother hmember (hkey.trans hsame.symm)
      rw [hwaits]
      exact nofun
    · intro hlive
      have hended := hlive peer hmember hsame
      cases hpeer : peer.state with
      | reconnecting => rfl
      | connecting => exact absurd hpeer hsettled
      | connected => exact absurd hpeer hstate
      | disconnected => exact absurd hpeer hended
  · have hadded := World.addPeer_added hself hkey hendpoint
    refine ⟨fun _ peer hmember hsame => ?_, fun _ => ⟨s.world.pool.nextId, Or.inl ?_⟩⟩
    · exact absurd hsame (Pool.key_ne_of_withKey? hkey peer hmember)
    · rw [hadded]

/-- **Authentication foresees admission, but for members that were ended.**  In a pool that can come
about, if a node is told that it may join and its link is offered at once, the node joins or is
resumed exactly if it is no member that was ended; such a member keeps its place, and the link is
refused.  If a node is told that it may not join, it does not. -/
theorem admission_foreseen {policy : PoolPolicy} {localKey : Bytes} {store : Option PeerStore}
    {net : Net} (hrun : Run (start policy localKey store net) s) (link : Link) :
    (s.world.pool.authenticate link.identity link.endpoint = .ok () →
      (s.world.Takes link ↔ ∀ peer ∈ s.world.pool.members,
        peer.identity.publicKey = link.identity.publicKey → peer.state ≠ .disconnected) ∧
      ∀ peer ∈ s.world.pool.members, peer.identity.publicKey = link.identity.publicKey →
        peer.state = .disconnected →
          (s.world.addPeer link).1 = .ok (.alreadyConnected peer.id)) ∧
    ∀ cause, s.world.pool.authenticate link.identity link.endpoint = .error cause →
      ∀ id, (s.world.addPeer link).1 ≠ .ok (.added id) := by
  have hsound := hrun.sound (sound_start policy localKey store net)
  refine ⟨fun hok => ⟨hsound.takes_iff hok, ?_⟩, ?_⟩
  · intro peer hmember hkey hstate
    have hself := (Pool.authenticate_eq_ok_iff.1 hok).1
    have hfound : s.world.pool.withKey? link.identity.publicKey = some peer :=
      hsound.orderly.withKey?_of_mem hmember hkey
    have hadopt : peer.adopt link.line = none := by
      rw [Peer.adopt_eq_none_iff, hstate]
      exact nofun
    rw [World.addPeer_refused hself hfound hadopt]
  · intro cause herror id hadded
    rw [World.authenticate_of_added hadded] at herror
    exact absurd herror nofun

/-- A member that waits for a line is told that it may join, and is resumed. -/
theorem admission_foreseen_lost :
    ∃ s, Run (start {} [0] none {}) s ∧
      s.world.pool.authenticate Life.inboundLink.identity Life.inboundLink.endpoint = .ok () ∧
      s.world.Takes { Life.inboundLink with line := 1 } := by
  obtain ⟨stage, hlost, -⟩ := exists_run_lost
  refine ⟨_, hlost, rfl, ?_⟩
  refine ((admission_foreseen hlost { Life.inboundLink with line := 1 }).1 rfl).1.2 ?_
  rintro peer hmember -
  obtain rfl := List.mem_singleton.1 hmember
  exact nofun

/-- A member that waited in vain, and of which the pool has not heard that it is lost, is told that
it may join, and its link is refused. -/
theorem not_admission_foreseen_exhausted :
    ∃ s, Run (start {} [0] none {}) s ∧
      s.world.pool.authenticate Life.inboundLink.identity Life.inboundLink.endpoint = .ok () ∧
      ¬ s.world.Takes { Life.inboundLink with line := 1 } := by
  obtain ⟨stage, hlost, hstage⟩ := exists_run_lost
  have hexhausted := hlost
    |>.step (.supervise List.mem_cons_self (.drop hstage rfl) rfl)
    |>.step (.supervise List.mem_cons_self (.skip rfl rfl) rfl)
    |>.step (.supervise List.mem_cons_self (.skip rfl rfl) rfl)
    |>.step (.supervise List.mem_cons_self (.skip rfl rfl) rfl)
    |>.step (.supervise List.mem_cons_self (.skip rfl rfl) rfl)
    |>.step (.supervise List.mem_cons_self (.exhaust rfl rfl) rfl)
  obtain ⟨s, hrun, hlocal, hkey⟩ : ∃ s, Run (start {} [0] none {}) s ∧
      s.world.pool.localKey = [0] ∧ s.world.pool.withKey? Life.inboundLink.identity.publicKey =
        some { lostPeer with state := .disconnected } :=
    ⟨_, hexhausted, rfl, rfl⟩
  have hself : Life.inboundLink.identity.publicKey ≠ s.world.pool.localKey := by
    rw [hlocal]
    decide
  refine ⟨s, hrun, Pool.authenticate_eq_ok_iff.2 ⟨hself, Or.inl ⟨_, hkey, nofun⟩⟩, ?_⟩
  intro htakes
  have hwaits := (@World.takes_iff_of_withKey? _ { Life.inboundLink with line := 1 } hself _ hkey).1
    htakes
  exact absurd hwaits nofun

end ConcurrentPool

end Overlay
