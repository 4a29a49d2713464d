import Mathlib.Data.List.Nodup
import Overlay.Pool.Events
import Overlay.Proofs.Peer.Traffic
import Overlay.Proofs.Pool.Showing

/-!
# Who the members of a pool are

In an orderly pool the ids of the members grow, no two members have the same
key or the same endpoint, and none has the key of the node.  A section spares
the members if it takes some of them out at most, and leaves the others on
their lines.  What is sent to members spares them all.
-/

namespace Overlay

open Wire

/-- Two members of a pool, the first of which joined earlier. -/
structure Peer.Card.Apart (first second : Peer.Card) : Prop where
  id : first.id < second.id
  key : first.identity.publicKey ≠ second.identity.publicKey
  endpoint : first.endpoint ≠ second.endpoint

/-- A peer that is resumed stays the node that it was, and is connected on the new line. -/
theorem Peer.gist_of_adopt {peer adopted : Peer} {line : Nat}
    (hadopt : peer.adopt line = some adopted) :
    adopted.gist = ⟨peer.card, .connected, some line⟩ := by
  obtain ⟨-, rfl⟩ := (adopt_eq_some_iff _ _ _).1 hadopt
  rfl

namespace Pool

def roster (pool : Pool) : List Peer.Card :=
  pool.members.map Peer.card

def gists (pool : Pool) : List Peer.Gist :=
  pool.members.map Peer.gist

structure Orderly (pool : Pool) : Prop where
  apart : pool.roster.Pairwise Peer.Card.Apart
  drawn : ∀ card ∈ pool.roster, card.id < pool.nextId
  foreign : ∀ card ∈ pool.roster, card.identity.publicKey ≠ pool.localKey

variable {pool after : Pool}

/-- In a list in which no two have the same id, the first of an id is all of that id. -/
theorem eraseP_eq_filter {α : Type} (idOf : α → Nat) {items : List α}
    (hids : (items.map idOf).Nodup) (id : Nat) :
    items.eraseP (idOf · == id) = items.filter (idOf · ≠ id) := by
  induction items with
  | nil => rfl
  | cons item rest ih =>
      rw [List.map_cons, List.nodup_cons] at hids
      by_cases hid : idOf item = id
      · have hothers : ∀ other ∈ rest, idOf other ≠ id := fun other hother hsame =>
          hids.1 (hid.trans hsame.symm ▸ List.mem_map_of_mem hother)
        rw [List.eraseP_cons_of_pos (by simpa using hid),
          List.filter_cons_of_neg (by simpa using hid)]
        exact (List.filter_eq_self.2 (by simpa using hothers)).symm
      · rw [List.eraseP_cons_of_neg (by simpa using hid),
          List.filter_cons_of_pos (by simpa using hid), ih hids.2]

theorem mem_roster {peer : Peer} (hmember : peer ∈ pool.members) : peer.card ∈ pool.roster :=
  List.mem_map_of_mem hmember

theorem mem_gists {peer : Peer} (hmember : peer ∈ pool.members) : peer.gist ∈ pool.gists :=
  List.mem_map_of_mem hmember

theorem map_toCard_gists (pool : Pool) : pool.gists.map (·.toCard) = pool.roster := by
  rw [gists, List.map_map]
  rfl

theorem toCard_mem {gist : Peer.Gist} (hgist : gist ∈ pool.gists) : gist.toCard ∈ pool.roster := by
  rw [← map_toCard_gists]
  exact List.mem_map_of_mem hgist

theorem mem_of_member? {id : Nat} {peer : Peer} (hmember : pool.member? id = some peer) :
    peer ∈ pool.members :=
  List.mem_of_find?_eq_some hmember

theorem mem_of_withKey? {key : Bytes} {peer : Peer} (hkey : pool.withKey? key = some peer) :
    peer ∈ pool.members ∧ peer.identity.publicKey = key :=
  ⟨List.mem_of_find?_eq_some hkey, by simpa using List.find?_some hkey⟩

theorem mem_of_atEndpoint? {e : Endpoint} {peer : Peer} (hfound : pool.atEndpoint? e = some peer) :
    peer ∈ pool.members ∧ peer.endpoint = e :=
  ⟨List.mem_of_find?_eq_some hfound, by simpa using List.find?_some hfound⟩

theorem key_ne_of_withKey? {key : Bytes} (hkey : pool.withKey? key = none) :
    ∀ peer ∈ pool.members, peer.identity.publicKey ≠ key := by
  simpa using List.find?_eq_none.1 hkey

theorem endpoint_ne_of_atEndpoint? {e : Endpoint} (hendpoint : pool.atEndpoint? e = none) :
    ∀ peer ∈ pool.members, peer.endpoint ≠ e := by
  simpa using List.find?_eq_none.1 hendpoint

/-- A change of a member shows in nothing that it leaves as it was. -/
theorem map_change {β : Type} (g : Peer → β) {id : Nat} {f : Peer → Peer}
    (hkept : ∀ peer ∈ pool.members, peer.id = id → g (f peer) = g peer) :
    (pool.change id f).members.map g = pool.members.map g := by
  show (pool.members.map fun peer => if peer.id = id then f peer else peer).map g = _
  rw [List.map_map]
  refine List.map_congr_left fun peer hmember => ?_
  show g (if peer.id = id then f peer else peer) = g peer
  split_ifs with hsame
  · exact hkept peer hmember hsame
  · rfl

/-- In a pool in which no two members have the same id, a change of a member is a change of nobody
else. -/
theorem change_eq {front rest : List Peer} {peer : Peer} (hids : (pool.members.map (·.id)).Nodup)
    (hmembers : pool.members = front ++ peer :: rest) (changed : Peer) :
    pool.change peer.id (fun _ => changed) =
      { pool with members := front ++ changed :: rest } := by
  rw [hmembers, List.map_append, List.map_cons, List.nodup_middle, List.nodup_cons,
    ← List.map_append] at hids
  have hothers : ∀ other ∈ front ++ rest,
      (if other.id = peer.id then changed else other) = other := by
    intro other hother
    refine if_neg fun hid => hids.1 ?_
    rw [← hid]
    exact List.mem_map_of_mem hother
  have hfront := List.map_congr_left fun other hother =>
    hothers other (List.mem_append_left rest hother)
  have hrest := List.map_congr_left fun other hother =>
    hothers other (List.mem_append_right front hother)
  rw [change, hmembers, List.map_append, List.map_cons, if_pos rfl, hfront, hrest]
  simp

theorem gists_enroll (pool : Pool) (link : Link) (now : Int64) :
    (pool.enroll link now).gists =
      pool.gists ++ [(Peer.start pool.nextId link pool.policy.link).gist] := by
  simp [enroll, tell, gists]

theorem roster_enroll (pool : Pool) (link : Link) (now : Int64) :
    (pool.enroll link now).roster =
      pool.roster ++ [⟨pool.nextId, link.identity, link.endpoint⟩] := by
  simp [enroll, tell, roster, Peer.start, Peer.card]

theorem mem_gists_change {id : Nat} {changed : Peer} {gist : Peer.Gist}
    (hgist : gist ∈ (pool.change id fun _ => changed).gists) :
    gist = changed.gist ∨ gist ∈ pool.gists ∧ gist.id ≠ id := by
  obtain ⟨peer, hpeer, rfl⟩ := List.mem_map.1 hgist
  obtain ⟨before, hbefore, rfl⟩ := List.mem_map.1 hpeer
  split_ifs with hsame
  · exact Or.inl rfl
  · exact Or.inr ⟨List.mem_map_of_mem hbefore, hsame⟩

/-- To queue a message changes the member on which it is queued. -/
theorem exists_of_send {peer : Peer} {job : Job} (hsend : pool.send peer job = .ok after) :
    ∃ queued, peer.enqueue job = .ok queued ∧ after = pool.change queued.id fun _ => queued := by
  rw [send] at hsend
  cases henqueue : peer.enqueue job with
  | error cause =>
      rw [henqueue] at hsend
      exact absurd hsend nofun
  | ok queued =>
      rw [henqueue] at hsend
      exact ⟨queued, rfl, (Except.ok.inj hsend).symm⟩

theorem exists_of_sendTicketed {peer : Peer} {message : Message} {ticketed : Nat × Pool}
    (hsend : pool.sendTicketed peer message = .ok ticketed) :
    ∃ queued, peer.enqueue { message, ticket := some pool.tickets } = .ok queued ∧
      ticketed.2 = pool.newTicket.2.change queued.id fun _ => queued := by
  rw [sendTicketed] at hsend
  change (pool.newTicket.2.send peer { message, ticket := some pool.tickets }).map _ = _ at hsend
  cases hqueued : pool.newTicket.2.send peer { message, ticket := some pool.tickets } with
  | error cause =>
      rw [hqueued] at hsend
      exact absurd hsend nofun
  | ok after =>
      obtain ⟨queued, henqueue, rfl⟩ := exists_of_send hqueued
      rw [hqueued] at hsend
      exact ⟨queued, henqueue, congrArg Prod.snd (Except.ok.inj hsend).symm⟩

/-- A member whose queue has grown has the gist that it had. -/
theorem gists_change_queued {peer queued : Peer} {job : Job} (henqueue : peer.enqueue job = .ok queued)
    (hsame : ∀ gist ∈ pool.gists, gist.id = peer.id → gist = peer.gist) :
    (pool.change queued.id fun _ => queued).gists = pool.gists := by
  have hqueued : queued.gist = peer.gist := Peer.gist_enqueue henqueue
  refine map_change Peer.gist fun other hother hid => hqueued.trans ?_
  refine (hsame other.gist (List.mem_map_of_mem hother) ?_).symm
  exact hid.trans (congrArg (·.id) hqueued)

/-- A message that is queued on all members changes nothing but the members and the tickets. -/
theorem exists_broadcastTicketed (pool : Pool) (message : Message) :
    ∃ members tickets, (pool.broadcastTicketed message).2 = { pool with members, tickets } := by
  rw [broadcastTicketed]
  refine List.foldlRecOn pool.members _ (motive := fun sent : List Nat × Pool =>
    ∃ members tickets, sent.2 = { pool with members, tickets }) ⟨_, _, rfl⟩
    fun sent hsent peer hmember => ?_
  cases hsend : sent.2.sendTicketed peer message with
  | error cause => exact hsent
  | ok ticketed =>
      obtain ⟨members, tickets, hsent⟩ := hsent
      obtain ⟨queued, -, hafter⟩ := exists_of_sendTicketed hsend
      rw [hsent] at hafter
      exact ⟨_, _, hafter⟩

/-- Looks whether a member shares an endpoint or a key with one that was kept. -/
def sift (found : List Peer × List Nat) (peer : Peer) : List Peer × List Nat :=
  let known := found.1.any fun other =>
    other.endpoint == peer.endpoint || other.identity.publicKey == peer.identity.publicKey
  if known then (found.1, found.2 ++ [peer.id]) else (found.1 ++ [peer], found.2)

theorem orderly_empty (policy : PoolPolicy) (localKey : Bytes) (store : Option PeerStore) :
    (empty policy localKey store).Orderly where
  apart := List.Pairwise.nil
  drawn := nofun
  foreign := nofun

namespace Orderly

theorem ids (horderly : pool.Orderly) : (pool.members.map (·.id)).Pairwise (· < ·) := by
  have hids := horderly.apart.map (·.id) fun _ _ => Peer.Card.Apart.id
  rwa [roster, List.map_map] at hids

theorem keys (horderly : pool.Orderly) : (pool.members.map (·.identity.publicKey)).Nodup := by
  have hkeys := horderly.apart.map (·.identity.publicKey) fun _ _ => Peer.Card.Apart.key
  rwa [roster, List.map_map] at hkeys

theorem endpoints (horderly : pool.Orderly) : pool.endpoints.Nodup := by
  have hendpoints := horderly.apart.map (·.endpoint) fun _ _ => Peer.Card.Apart.endpoint
  rwa [roster, List.map_map] at hendpoints

/-- Members of one id are one member. -/
theorem eq_of_id (horderly : pool.Orderly) {first second : Peer} (hfirst : first ∈ pool.members)
    (hsecond : second ∈ pool.members) (hid : first.id = second.id) : first = second :=
  List.inj_on_of_nodup_map (horderly.ids.imp Nat.ne_of_lt) hfirst hsecond hid

theorem eq_of_key (horderly : pool.Orderly) {first second : Peer} (hfirst : first ∈ pool.members)
    (hsecond : second ∈ pool.members)
    (hkey : first.identity.publicKey = second.identity.publicKey) : first = second :=
  List.inj_on_of_nodup_map horderly.keys hfirst hsecond hkey

theorem withKey?_of_mem (horderly : pool.Orderly) {peer : Peer} (hmember : peer ∈ pool.members)
    {key : Bytes} (hkey : peer.identity.publicKey = key) : pool.withKey? key = some peer := by
  cases hfound : pool.withKey? key with
  | none => exact absurd hkey (key_ne_of_withKey? hfound peer hmember)
  | some other =>
      obtain ⟨hother, hsame⟩ := mem_of_withKey? hfound
      rw [horderly.eq_of_key hother hmember (hsame.trans hkey.symm)]

/-- A pool stays orderly if members leave. -/
theorem sublist (horderly : pool.Orderly) (hroster : after.roster.Sublist pool.roster)
    (hnext : after.nextId = pool.nextId) (hkey : after.localKey = pool.localKey) :
    after.Orderly where
  apart := horderly.apart.sublist hroster
  drawn := by
    rw [hnext]
    exact fun card hcard => horderly.drawn card (hroster.subset hcard)
  foreign := by
    rw [hkey]
    exact fun card hcard => horderly.foreign card (hroster.subset hcard)

/-- A pool stays orderly if an id is drawn for nobody. -/
theorem skip (horderly : pool.Orderly) : { pool with nextId := pool.nextId + 1 }.Orderly where
  apart := horderly.apart
  drawn := fun card hcard => Nat.lt_succ_of_lt (horderly.drawn card hcard)
  foreign := horderly.foreign

/-- A pool stays orderly if a node joins that is not known. -/
theorem enroll (horderly : pool.Orderly) {link : Link}
    (hself : link.identity.publicKey ≠ pool.localKey)
    (hkey : pool.withKey? link.identity.publicKey = none)
    (hendpoint : pool.atEndpoint? link.endpoint = none) (now : Int64) :
    (pool.enroll link now).Orderly := by
  have hroster := pool.roster_enroll link now
  refine ⟨?_, ?_, ?_⟩
  · rw [hroster, List.pairwise_append]
    refine ⟨horderly.apart, List.pairwise_singleton .., fun card hcard joined hjoined => ?_⟩
    obtain rfl := List.mem_singleton.1 hjoined
    obtain ⟨peer, hmember, rfl⟩ := List.mem_map.1 hcard
    exact ⟨horderly.drawn _ hcard, key_ne_of_withKey? hkey peer hmember,
      endpoint_ne_of_atEndpoint? hendpoint peer hmember⟩
  · intro card hcard
    rw [hroster, List.mem_append, List.mem_singleton] at hcard
    rcases hcard with hbefore | rfl
    · exact Nat.lt_succ_of_lt (horderly.drawn card hbefore)
    · exact Nat.lt_succ_self _
  · intro card hcard
    rw [hroster, List.mem_append, List.mem_singleton] at hcard
    rcases hcard with hbefore | rfl
    · exact horderly.foreign card hbefore
    · exact hself

/-- Members that are apart are all kept. -/
theorem foldl_sift {found members : List Peer}
    (hapart : ((found ++ members).map Peer.card).Pairwise Peer.Card.Apart) :
    members.foldl sift (found, []) = (found ++ members, []) := by
  induction members generalizing found with
  | nil => rw [List.foldl_nil, List.append_nil]
  | cons peer rest ih =>
      have hnew : (found.any fun other => other.endpoint == peer.endpoint ||
          other.identity.publicKey == peer.identity.publicKey) = false := by
        rw [List.any_eq_false]
        intro other hother
        rw [List.map_append, List.pairwise_append] at hapart
        obtain ⟨-, hkey, hendpoint⟩ := hapart.2.2 other.card (List.mem_map_of_mem hother) peer.card
          (List.mem_map_of_mem List.mem_cons_self)
        simpa using ⟨hendpoint, hkey⟩
      have hkept : sift (found, []) peer = (found ++ [peer], []) := by
        simp [sift, hnew]
      rw [List.append_cons] at hapart ⊢
      rw [List.foldl_cons, hkept]
      exact ih hapart

/-- An orderly pool has no duplicates to remove. -/
theorem duplicates_eq_nil (horderly : pool.Orderly) : pool.duplicates = [] := by
  show (pool.members.foldl sift ([], [])).2 = []
  rw [@foldl_sift [] pool.members horderly.apart]

theorem eq_gist (horderly : pool.Orderly) {peer : Peer} (hmember : peer ∈ pool.members) :
    ∀ gist ∈ pool.gists, gist.id = peer.id → gist = peer.gist := by
  intro gist hgist hid
  obtain ⟨other, hother, rfl⟩ := List.mem_map.1 hgist
  rw [horderly.eq_of_id hother hmember hid]

/-- The roster stays the same if a member is not made another node. -/
theorem roster_change (horderly : pool.Orderly) {peer changed : Peer}
    (hmember : peer ∈ pool.members) (hcard : changed.card = peer.card) :
    (pool.change peer.id fun _ => changed).roster = pool.roster := by
  refine map_change Peer.card fun other hother hid => ?_
  rw [horderly.eq_of_id hother hmember hid]
  exact hcard

/-- A message that is queued on all members leaves all gists. -/
theorem gists_broadcastTicketed (horderly : pool.Orderly) (message : Message) :
    (pool.broadcastTicketed message).2.gists = pool.gists := by
  rw [broadcastTicketed]
  refine List.foldlRecOn pool.members _ (motive := fun sent : List Nat × Pool =>
    sent.2.gists = pool.gists) rfl fun sent hsent peer hmember => ?_
  cases hsend : sent.2.sendTicketed peer message with
  | error cause => exact hsent
  | ok ticketed =>
      obtain ⟨queued, henqueue, hafter⟩ := exists_of_sendTicketed hsend
      have hgists : ticketed.2.gists = sent.2.gists := by
        rw [hafter]
        refine gists_change_queued henqueue ?_
        show ∀ gist ∈ sent.2.gists, gist.id = peer.id → gist = peer.gist
        rw [hsent]
        exact horderly.eq_gist hmember
      exact hgists.trans hsent

end Orderly

end Pool

namespace World

variable {world after later : World}

theorem map_gist_write (peers : List Peer) (net : Net) :
    (write.go peers net).1.map Peer.gist = peers.map Peer.gist := by
  induction peers generalizing net with
  | nil => rfl
  | cons peer rest ih =>
      rw [write.go]
      exact congrArg₂ List.cons (peer.gist_write net) (ih _)

/-- A message that is sent to all members changes nothing of the pool but them, the tickets and the
verdicts. -/
theorem exists_broadcastAndWait (world : World) (message : Message) :
    ∃ members tickets verdicts, (world.broadcastAndWait message).2.pool =
      { world.pool with members, tickets, verdicts } := by
  obtain ⟨members, tickets, hqueued⟩ := world.pool.exists_broadcastTicketed message
  rw [broadcastAndWait]
  dsimp only
  rw [hqueued]
  exact ⟨_, _, _, rfl⟩

theorem gists_broadcastAndWait (horderly : world.pool.Orderly) (message : Message) :
    (world.broadcastAndWait message).2.pool.gists = world.pool.gists :=
  (map_gist_write _ _).trans (horderly.gists_broadcastTicketed message)

/-- To take a member out changes nothing else of the pool but the store and what was told. -/
theorem exists_takePeer (world : World) (id : Nat) (goodbye forget : Bool) :
    ∃ store told, (world.takePeer id goodbye forget).2.pool = { world.pool with
      members := world.pool.members.eraseP (·.id == id)
      store
      told } := by
  rw [takePeer]
  cases hmember : world.pool.member? id with
  | none =>
      have hnobody : ∀ peer ∈ world.pool.members, ¬ (peer.id == id) = true :=
        List.find?_eq_none.1 hmember
      refine ⟨world.pool.store, world.pool.told, ?_⟩
      rw [List.eraseP_of_forall_not hnobody]
  | some peer =>
      have hid : peer.id = id := Pool.id_of_member? hmember
      have hsaid : (peer.sayGoodbye world.net).1.id = id :=
        (congrArg (·.id) (peer.gist_sayGoodbye world.net)).trans hid
      dsimp only
      split
      · rw [← hsaid]
        exact ⟨_, _, rfl⟩
      · rw [← hid]
        exact ⟨_, _, rfl⟩

/-- A link that is offered lets a node join that is not known, or leaves the members who they
are. -/
theorem roster_addPeer (horderly : world.pool.Orderly) (link : Link) :
    (link.identity.publicKey ≠ world.pool.localKey ∧
      world.pool.withKey? link.identity.publicKey = none ∧
      world.pool.atEndpoint? link.endpoint = none ∧
      (world.addPeer link).2.pool = world.pool.enroll link world.net.clock) ∨
    ((world.addPeer link).2.pool.roster = world.pool.roster ∧
      (world.addPeer link).2.pool.nextId = world.pool.nextId ∧
      (world.addPeer link).2.pool.localKey = world.pool.localKey) := by
  rcases world.addPeer_cases link with ⟨hself, hkey, hendpoint, hadded⟩ |
    ⟨-, peer, adopted, hkey, hadopt, hresumed⟩ | ⟨hclosed, -⟩
  · rw [hadded]
    exact Or.inl ⟨hself, hkey, hendpoint, rfl⟩
  · have hcard : adopted.card = peer.card := congrArg (·.toCard) (Peer.gist_of_adopt hadopt)
    rw [hresumed]
    exact Or.inr ⟨horderly.roster_change (Pool.mem_of_withKey? hkey).1 hcard, rfl, rfl⟩
  · rw [hclosed]
    exact Or.inr ⟨rfl, rfl, rfl⟩

/-- A link that is offered leaves an orderly pool. -/
theorem orderly_addPeer (horderly : world.pool.Orderly) (link : Link) :
    (world.addPeer link).2.pool.Orderly := by
  rcases roster_addPeer horderly link with ⟨hself, hkey, hendpoint, hadded⟩ |
    ⟨hroster, hnext, hlocal⟩
  · rw [hadded]
    exact horderly.enroll hself hkey hendpoint _
  · exact horderly.sublist (hroster ▸ List.Sublist.refl _) hnext hlocal

/-- A section that takes some members out at most. -/
structure Spares (world after : World) : Prop where
  members : after.pool.gists.Sublist world.pool.gists
  nextId : after.pool.nextId = world.pool.nextId
  localKey : after.pool.localKey = world.pool.localKey

/-- A section spares the members if it lets them alone. -/
theorem spares_of_eq (hmembers : after.pool.members = world.pool.members)
    (hnext : after.pool.nextId = world.pool.nextId)
    (hkey : after.pool.localKey = world.pool.localKey) : world.Spares after where
  members := by
    rw [Pool.gists, hmembers]
    exact List.Sublist.refl _
  nextId := hnext
  localKey := hkey

theorem Spares.roster (hspares : world.Spares after) :
    after.pool.roster.Sublist world.pool.roster := by
  rw [← Pool.map_toCard_gists, ← Pool.map_toCard_gists]
  exact hspares.members.map _

theorem Spares.orderly (hspares : world.Spares after) (horderly : world.pool.Orderly) :
    after.pool.Orderly :=
  horderly.sublist hspares.roster hspares.nextId hspares.localKey

theorem spares_broadcastAndWait (horderly : world.pool.Orderly) (message : Message) :
    world.Spares (world.broadcastAndWait message).2 := by
  obtain ⟨members, tickets, verdicts, hpool⟩ := world.exists_broadcastAndWait message
  refine ⟨?_, ?_, ?_⟩
  · rw [gists_broadcastAndWait horderly message]
  · rw [hpool]
  · rw [hpool]

/-- A message for one member spares all. -/
theorem spares_post (horderly : world.pool.Orderly) (id : Nat) (message : Message) :
    world.Spares (world.withPool fun pool =>
      match pool.member? id with
      | none => pool
      | some peer =>
        match pool.send peer { message } with
        | .error _ => pool
        | .ok pool => pool) := by
  simp only [withPool]
  split
  · exact spares_of_eq rfl rfl rfl
  · next peer hmember =>
    split
    · exact spares_of_eq rfl rfl rfl
    · next after hsend =>
      obtain ⟨queued, henqueue, rfl⟩ := Pool.exists_of_send hsend
      have hsame := horderly.eq_gist (Pool.mem_of_member? hmember)
      refine ⟨?_, rfl, rfl⟩
      show (world.pool.change queued.id fun _ => queued).gists.Sublist world.pool.gists
      rw [Pool.gists_change_queued henqueue hsame]

/-- To take a member out spares the others. -/
theorem spares_take (id : Nat) :
    world.Spares (world.withPool fun pool =>
      { pool with members := pool.members.eraseP (·.id == id) }) where
  members := (List.eraseP_sublist ..).map _
  nextId := rfl
  localKey := rfl

end World

end Overlay
