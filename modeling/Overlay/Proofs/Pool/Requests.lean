import Overlay.Proofs.Payload.Formats
import Overlay.Proofs.Pool.Identities

/-!
# Requests for peers

A member that asks for peers is answered with the endpoints of the others that
are connected: of those that joined first, and of no more than it asks for.
The answer waits on its session, and nothing else has changed.  What cannot be
read as a request is not answered, and neither is one of a node that is no
longer a member.
-/

namespace Overlay

open Payload

/-! ## The one who asks, and the others -/

namespace Pool

variable {pool : Pool} {front rest : List Peer} {peer : Peer}

/-- The other members have other ids and are at other endpoints. -/
theorem Orderly.apart_others (horderly : pool.Orderly)
    (hmembers : pool.members = front ++ peer :: rest) :
    ∀ other ∈ front ++ rest, other.id ≠ peer.id ∧ other.endpoint ≠ peer.endpoint := by
  have hapart := horderly.apart
  rw [roster, hmembers, List.map_append, List.map_cons, List.pairwise_append,
    List.pairwise_cons] at hapart
  obtain ⟨-, ⟨hlater, -⟩, hearlier⟩ := hapart
  intro other hother
  rcases List.mem_append.1 hother with hfront | hrest
  · have hbefore := hearlier other.card (List.mem_map_of_mem hfront) peer.card List.mem_cons_self
    exact ⟨Nat.ne_of_lt hbefore.id, hbefore.endpoint⟩
  · have hbehind := hlater other.card (List.mem_map_of_mem hrest)
    exact ⟨Nat.ne_of_gt hbehind.id, hbehind.endpoint.symm⟩

theorem Orderly.member?_eq (horderly : pool.Orderly)
    (hmembers : pool.members = front ++ peer :: rest) : pool.member? peer.id = some peer := by
  have hfront : ∀ other ∈ front, ¬ (other.id == peer.id) = true := by
    intro other hother
    simpa using (horderly.apart_others hmembers other (List.mem_append_left _ hother)).1
  rw [member?, hmembers, List.find?_append, List.find?_eq_none.2 hfront]
  simp

/-- A change of one member is a change of nobody else. -/
theorem Orderly.change_eq (horderly : pool.Orderly)
    (hmembers : pool.members = front ++ peer :: rest) (changed : Peer) :
    pool.change peer.id (fun _ => changed) =
      { pool with members := front ++ changed :: rest } :=
  Pool.change_eq (horderly.ids.imp Nat.ne_of_lt) hmembers changed

/-- The members whose endpoints are told are the first of the others that are connected. -/
theorem Orderly.available_eq (horderly : pool.Orderly)
    (hmembers : pool.members = front ++ peer :: rest) (count : Nat) :
    pool.available count (some peer.id) =
      (((front ++ rest).filter (·.isAvailable)).take count).map (·.endpoint) := by
  have hothers : ∀ other ∈ front ++ rest,
      (some other.id ≠ some peer.id && other.isAvailable) = other.isAvailable := by
    intro other hother
    simp [(horderly.apart_others hmembers other hother).1]
  rw [available, hmembers, List.filter_append, List.filter_cons_of_neg (by simp),
    ← List.filter_append, List.filter_congr hothers]

end Pool

/-! ## The answer -/

/-- A peer with one more message on its session. -/
def Peer.queued (peer : Peer) (session : Session) (message : Wire.Message) : Peer :=
  { peer with
    session := some { session with
      outbox := { session.outbox with queue := session.outbox.queue ++ [{ message }] } } }

/-- A connected peer takes a message as long as its writer has not stopped. -/
theorem Peer.enqueue_eq {peer : Peer} {session : Session} (hstate : peer.state = .connected)
    (hsession : peer.session = some session) (hwriter : session.outbox.phase ≠ .ended)
    (message : Wire.Message) : peer.enqueue { message } = .ok (peer.queued session message) := by
  simp [enqueue, hstate, hsession, Wire.Outbox.enqueue, hwriter, queued]

theorem PeerList.ofMessage_toMessage {list : PeerList} (hfits : format.Fits list) :
    ofMessage list.toMessage = .ok list :=
  (format_lawful.carried .returnPeers).ofMessage_toMessage list hfits

/-- A request is read if its payload is one and nothing else. -/
theorem PeerRequest.ofMessage_eq_ok_iff {message : Wire.Message} {request : PeerRequest}
    (hkind : message.tag = MessageKind.requestPeers.tag) :
    ofMessage message = .ok request ↔ decode message.payload.bytes = .ok (request, []) := by
  rw [ofMessage, MessageKind.decode, if_pos hkind, deserialize_eq_ok_iff]

namespace World

variable {world : World} {message : Wire.Message}

theorem handle_of_nobody {id : Nat} (hnobody : ∀ peer ∈ world.pool.members, peer.id ≠ id)
    (message : Wire.Message) : world.handle (.message id message) = world := by
  have hnone : world.pool.member? id = none := by
    simpa [Pool.member?] using hnobody
  simp only [handle, handleMessage, hnone]

theorem handle_of_unread {id : Nat} (hkind : message.tag = MessageKind.requestPeers.tag)
    (hunread : ∀ request, PeerRequest.decode message.payload.bytes ≠ .ok (request, [])) :
    world.handle (.message id message) = world := by
  have hrefused : ∃ cause, PeerRequest.ofMessage message = .error cause := by
    cases hread : PeerRequest.ofMessage message with
    | error cause => exact ⟨cause, rfl⟩
    | ok request => exact absurd ((PeerRequest.ofMessage_eq_ok_iff hkind).1 hread) (hunread request)
  obtain ⟨cause, hrefused⟩ := hrefused
  simp only [handle, handleMessage]
  cases world.pool.member? id with
  | none => rfl
  | some peer =>
      simp only [hkind]
      show world.answerRequest peer message = world
      rw [answerRequest, hrefused]

/-- A request that is read and can be answered is answered, and nothing else changes. -/
theorem handle_of_read (horderly : world.pool.Orderly) {front rest : List Peer} {peer : Peer}
    (hmembers : world.pool.members = front ++ peer :: rest) {session : Session}
    (hstate : peer.state = .connected) (hsession : peer.session = some session)
    (hwriter : session.outbox.phase ≠ .ended)
    (hkind : message.tag = MessageKind.requestPeers.tag) {count : UInt16}
    (hread : PeerRequest.decode message.payload.bytes = .ok (⟨count⟩, [])) :
    world.handle (.message peer.id message) = world.withPool fun pool => { pool with
      members := front ++ peer.queued session (PeerList.toMessage
        ⟨world.pool.available count.toNat (some peer.id)⟩) :: rest } := by
  have hrequest := (PeerRequest.ofMessage_eq_ok_iff hkind).2 hread
  simp only [handle, handleMessage, horderly.member?_eq hmembers, hkind]
  show world.answerRequest peer message = _
  rw [answerRequest, hrequest]
  simp only [Pool.send, Peer.enqueue_eq hstate hsession hwriter, Except.map]
  have hchanged := horderly.change_eq hmembers (peer.queued session (PeerList.toMessage
    ⟨world.pool.available count.toNat (some peer.id)⟩))
  exact congrArg (fun pool => { world with pool }) hchanged

end World

namespace ConcurrentPool

variable {s : ConcurrentPool}

/-- **What a request for peers comes to.**  Whatever a pool has been through: what is not one whole
request is not answered, and neither is a request of a node that is no member, and nothing changes.
A member that is connected and whose writer has not stopped is answered with one list, which reads
back as the endpoints of the first so many of the others that are connected, in the order in which
they joined: no two alike, and never its own.  The list waits behind what was queued before, and
that is all that changes. -/
theorem requests_answered {policy : PoolPolicy} {localKey : Bytes} {store : Option PeerStore}
    {net : Net} (hrun : Run (start policy localKey store net) s) {message : Wire.Message}
    (hkind : message.tag = MessageKind.requestPeers.tag) (id : Nat) :
    ((∀ request, PeerRequest.decode message.payload.bytes ≠ .ok (request, [])) →
      s.world.handle (.message id message) = s.world) ∧
    ((∀ peer ∈ s.world.pool.members, peer.id ≠ id) →
      s.world.handle (.message id message) = s.world) ∧
    ∀ front peer rest session count others offered,
      s.world.pool.members = front ++ peer :: rest → peer.id = id → peer.state = .connected →
      peer.session = some session → session.outbox.phase ≠ .ended →
      PeerRequest.decode message.payload.bytes = .ok (⟨count⟩, []) →
      others = (front ++ rest).filter (·.state = .connected) →
      offered = (others.take count.toNat).map (·.endpoint) →
      (∀ e ∈ offered, Endpoint.format.Fits e) →
      ∃ reply, PeerList.ofMessage reply = .ok ⟨offered⟩ ∧
        s.world.handle (.message id message) = s.world.withPool (fun pool =>
          { pool with members := front ++ peer.queued session reply :: rest }) ∧
        offered.length = min count.toNat others.length ∧ offered.Nodup ∧
        peer.endpoint ∉ offered := by
  have horderly := (hrun.sound (sound_start policy localKey store net)).orderly
  refine ⟨World.handle_of_unread hkind, fun hnobody => World.handle_of_nobody hnobody message, ?_⟩
  rintro front peer rest session count others offered hmembers rfl hstate hsession hwriter hread
    rfl rfl hfits
  have hoffered := horderly.available_eq hmembers count.toNat
  refine ⟨_, ?_, World.handle_of_read horderly hmembers hstate hsession hwriter hkind hread, ?_, ?_,
    ?_⟩
  · rw [hoffered]
    refine PeerList.ofMessage_toMessage ⟨?_, hfits⟩
    have hfew : count.toNat < 65536 := count.toNat_lt
    have hspan : 65536 ≤ Bytes.span 8 := by decide
    show (List.map _ _).length < _
    rw [List.length_map]
    exact lt_of_lt_of_le (lt_of_le_of_lt (List.length_take_le ..) hfew) hspan
  · rw [List.length_map, List.length_take]
  · have hothers : (((front ++ rest).filter (·.state = .connected)).take count.toNat).Sublist
        s.world.pool.members := by
      rw [hmembers]
      refine (List.take_sublist ..).trans (List.filter_sublist.trans ?_)
      exact (List.Sublist.refl front).append (List.sublist_cons_self peer rest)
    exact horderly.endpoints.sublist (hothers.map _)
  · intro hmem
    obtain ⟨other, hother, hsame⟩ := List.mem_map.1 hmem
    have hmember := List.mem_of_mem_filter (List.mem_of_mem_take hother)
    exact (horderly.apart_others hmembers other hmember).2 hsame

/-- A second node that dials in. -/
def laterLink : Link :=
  { Life.inboundLink with line := 1, identity := ⟨[2], 7001, 1⟩, endpoint := ⟨"b", 7001⟩ }

/-- The first of two members asks for five others, and is told of the second. -/
theorem requests_answered_pair :
    ∃ s reply, Run (start {} [0] none {}) s ∧ PeerList.ofMessage reply = .ok ⟨[⟨"b", 7001⟩]⟩ ∧
      (s.world.handle (.message 1 (PeerRequest.ofCount 5).toMessage)).pool.members.map
          (fun peer => peer.session.map (·.outbox.queue.map (·.message))) =
        [some [reply], some []] := by
  have hfresh : ∀ other ∈ [Life.inboundLink], other.line ≠ laterLink.line := by
    intro other hother
    rw [List.mem_singleton.1 hother]
    decide
  have hjoined := (@Run.refl (start {} [0] none {}))
    |>.step (.arrive Life.inboundLink nofun)
    |>.step (.ask (.add Life.inboundLink) fun _ hadd => by cases hadd; exact List.mem_cons_self)
    |>.step (@Step.offer _ [] [] _ _ rfl)
    |>.step (@Step.finish _ [] [] _ rfl)
    |>.step (.arrive laterLink hfresh)
    |>.step (.ask (.add laterLink) fun _ hadd => by cases hadd; exact List.mem_cons_self)
    |>.step (@Step.offer _ [] [] _ _ rfl)
    |>.step (@Step.finish _ [] [] _ rfl)
  have hfits : ∀ e ∈ [(⟨"b", 7001⟩ : Endpoint)], Endpoint.format.Fits e := by
    intro e he
    rw [List.mem_singleton.1 he]
    show (Bytes.ofText "b").length < Bytes.span 8
    decide
  obtain ⟨-, -, hanswered⟩ :=
    @requests_answered _ _ _ _ _ hjoined (PeerRequest.ofCount 5).toMessage rfl 1
  obtain ⟨reply, hread, hdone, -⟩ := hanswered [] (Peer.start 1 Life.inboundLink {})
    [Peer.start 2 laterLink {}] _ 5 _ _ rfl rfl rfl rfl nofun rfl rfl rfl hfits
  refine ⟨_, reply, hjoined, hread, ?_⟩
  rw [hdone]
  rfl

end ConcurrentPool

end Overlay
