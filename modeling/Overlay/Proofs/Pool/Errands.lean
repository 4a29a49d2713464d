import Overlay.Proofs.Pool.Ledger

/-!
# Joining, leaving and being heard, section by section

The list of the members has a lock of its own.  The store and the application
learn of a change of the list afterwards, and other threads come in between.
An `Errand` is what a thread still has to do of such a call.  Done with nothing
in between, an errand is the call of the world that has its name
(`Errand.alone_join`, `Errand.alone_expel`, `Errand.alone_hear`).  What a
section does to the ledger of the pool is said once, by `Errand.Move`.
-/

namespace Overlay

open Wire

/-- Says goodbye to a peer that is to be ended, if that is wanted and it can be reached. -/
def Peer.part (peer : Peer) (goodbye : Bool) (net : Net) : Peer × Net :=
  if goodbye && peer.isAvailable then peer.sayGoodbye net else (peer, net)

theorem Peer.card_part (peer : Peer) (goodbye : Bool) (net : Net) :
    (peer.part goodbye net).1.card = peer.card := by
  rw [part]
  split
  · exact congrArg (·.toCard) (peer.gist_sayGoodbye net)
  · rfl

namespace Ledger

/-- Takes a node into the list of the members. -/
def enlist (ledger : Ledger) (card : Peer.Card) : Ledger :=
  { ledger with members := ledger.members ++ [card], nextId := ledger.nextId + 1 }

def record (ledger : Ledger) (e : Endpoint) (now : Int64) : Ledger :=
  { ledger with store := ledger.store.map fun store => store.add e now }

def strike (ledger : Ledger) (e : Endpoint) : Ledger :=
  { ledger with store := ledger.store.map fun store => store.remove e }

/-- Takes the member of an id out of the list. -/
def unlist (ledger : Ledger) (id : Nat) : Ledger :=
  { ledger with members := ledger.members.filter (·.id ≠ id) }

def tell (ledger : Ledger) (event : PoolEvent) : Ledger :=
  { ledger with told := ledger.told ++ [event] }

end Ledger

namespace Pool

/-- Takes a peer into the list of the members. -/
def enlist (pool : Pool) (link : Link) : Pool :=
  { pool with
    members := pool.members ++ [Peer.start pool.nextId link pool.policy.link]
    nextId := pool.nextId + 1 }

def record (pool : Pool) (e : Endpoint) (now : Int64) : Pool :=
  { pool with store := pool.store.map fun store => store.add e now }

def strike (pool : Pool) (e : Endpoint) : Pool :=
  { pool with store := pool.store.map fun store => store.remove e }

/-- Takes the member of an id out of the list. -/
def unlist (pool : Pool) (id : Nat) : Pool :=
  { pool with members := pool.members.eraseP (·.id == id) }

variable {pool : Pool}

/-- Whoever is enrolled is in the list, in the store, and the application was told. -/
theorem enroll_eq (link : Link) (now : Int64) :
    pool.enroll link now =
      ((pool.enlist link).record link.endpoint now).tell (.joined pool.nextId link.endpoint) :=
  rfl

/-- Whoever is expelled is out of the list and, if that is wanted, out of the store. -/
theorem expel_eq {peer ended : Peer} (hcard : ended.card = peer.card) (forget : Bool) :
    pool.expel ended forget =
      (if forget then (pool.unlist peer.id).strike peer.endpoint else pool.unlist peer.id).tell
        (.left peer.id peer.endpoint) := by
  have hid : ended.id = peer.id := congrArg (·.id) hcard
  have hendpoint : ended.endpoint = peer.endpoint := congrArg (·.endpoint) hcard
  rw [← hid, ← hendpoint]
  cases forget <;> rfl

theorem ledger_enlist (pool : Pool) (link : Link) :
    (pool.enlist link).ledger =
      pool.ledger.enlist ⟨pool.nextId, link.identity, link.endpoint⟩ := by
  simp [enlist, Ledger.enlist, ledger, roster, Peer.start, Peer.card]

theorem ledger_unlist (horderly : pool.Orderly) (id : Nat) :
    (pool.unlist id).ledger = pool.ledger.unlist id :=
  ledger_take horderly id

end Pool

namespace World

/-- What becomes of a link while the list of the members is locked. -/
def seat (world : World) (link : Link) : Except NetError Admission × World :=
  match world.addPeer link with
  | (.ok (.added id), _) => (.ok (.added id), world.withPool (·.enlist link))
  | settled => settled

variable {world : World} {link : Link}

theorem seat_added {id : Nat} (hadded : (world.addPeer link).1 = .ok (.added id)) :
    world.seat link = (.ok (.added id), world.withPool (·.enlist link)) := by
  rw [seat]
  split
  · next heq => rw [heq] at hadded; rw [← hadded]
  · next hother => exact (hother id (world.addPeer link).2 (Prod.ext hadded rfl)).elim

theorem seat_settled (hsettled : ∀ id, (world.addPeer link).1 ≠ .ok (.added id)) :
    world.seat link = world.addPeer link := by
  rw [seat]
  split
  · next id _ heq => exact absurd (congrArg Prod.fst heq) (hsettled id)
  · rfl

/-- A member that is taken out is ended, and is no longer in the pool. -/
theorem takePeer_of_member {id : Nat} {peer : Peer} (hmember : world.pool.member? id = some peer)
    (goodbye forget : Bool) :
    (world.takePeer id goodbye forget).2 =
      { pool := world.pool.expel ((peer.part goodbye world.net).1.disconnect
          (peer.part goodbye world.net).2).2.1 forget
        net := ((peer.part goodbye world.net).1.disconnect
          (peer.part goodbye world.net).2).2.2 } := by
  rw [takePeer, hmember]
  rfl

theorem ledger_answerRequest (horderly : world.pool.Orderly) {peer : Peer}
    (hmember : peer ∈ world.pool.members) (message : Message) :
    (world.answerRequest peer message).pool.ledger = world.pool.ledger := by
  rw [answerRequest]
  split
  · rfl
  · dsimp only
    split
    · rfl
    · next after hsend => exact Pool.ledger_send horderly hmember hsend

theorem ledger_acceptList (message : Message) :
    (world.acceptList message).pool.ledger = world.pool.ledger := by
  rw [acceptList]
  split
  · rfl
  · split <;> rfl

end World

/-- What a thread still has to do of a call on a pool. -/
inductive Errand
  -- a link is offered
  | join (link : Link)
  -- a node is in the list, and the store is to record it
  | record (card : Peer.Card)
  -- the application is to be told that a node has joined
  | announce (card : Peer.Card)
  -- a member is to leave
  | expel (id : Nat) (goodbye forget : Bool)
  -- a member is out of the list, and is to be ended
  | dismiss (peer : Peer) (goodbye forget : Bool)
  -- the store is to forget a member
  | strike (card : Peer.Card)
  -- the application is to be told that a member has left
  | bid (card : Peer.Card)
  -- a message has come in
  | hear (id : Nat) (message : Message)
  -- the application is to be told of a message of a member
  | deliver (card : Peer.Card) (message : Message)

namespace Errand

/-- It is a call of which nothing is done. -/
def Begins : Errand → Prop
  | .join _ => True
  | .expel .. => True
  | .hear .. => True
  | _ => False

/-- Goes through the next section: what is left of the errand, and what becomes of the world. -/
def perform (world : World) : Errand → Option Errand × World
  | .join link =>
    match world.seat link with
    | (.ok (.added id), world) => (some (.record ⟨id, link.identity, link.endpoint⟩), world)
    | (_, world) => (none, world)
  | .record card =>
    (some (.announce card), world.withPool (·.record card.endpoint world.net.clock))
  | .announce card => (none, world.withPool (·.tell (.joined card.id card.endpoint)))
  | .expel id goodbye forget =>
    match world.pool.member? id with
    | none => (none, world)
    | some peer => (some (.dismiss peer goodbye forget), world.withPool (·.unlist id))
  | .dismiss peer goodbye forget =>
    let (said, net) := peer.part goodbye world.net
    (some (if forget then .strike peer.card else .bid peer.card),
      { world with net := (said.disconnect net).2.2 })
  | .strike card => (some (.bid card), world.withPool (·.strike card.endpoint))
  | .bid card => (none, world.withPool (·.tell (.left card.id card.endpoint)))
  | .hear id message =>
    match world.pool.member? id with
    | none => (none, world)
    | some peer =>
      match MessageKind.ofTag? message.tag with
      | some .requestPeers => (none, world.answerRequest peer message)
      | some .returnPeers => (none, world.acceptList message)
      | some .disconnect => (some (.expel id false true), world)
      | some .handshake => (none, world)
      | _ => (some (.deliver peer.card message), world)
  | .deliver card message =>
    (none, world.withPool (·.tell (.message card.id card.endpoint message)))

/-! ## Errands with nothing in between -/

/-- What an errand leads to if nothing comes in between. -/
inductive Alone : Errand → World → World → Prop
  | last {errand : Errand} {world after : World} (hperform : errand.perform world = (none, after)) :
      Alone errand world after
  | more {errand next : Errand} {world middle after : World}
      (hperform : errand.perform world = (some next, middle)) (hrest : Alone next middle after) :
      Alone errand world after

variable {world : World}

theorem alone_join (link : Link) : (join link).Alone world (world.addPeer link).2 := by
  by_cases hadded : ∃ id, (world.addPeer link).1 = .ok (.added id)
  · obtain ⟨id, hadded⟩ := hadded
    have hperform : (join link).perform world =
        (some (.record ⟨id, link.identity, link.endpoint⟩), world.withPool (·.enlist link)) := by
      rw [perform, World.seat_added hadded]
    rcases world.addPeer_cases link with ⟨-, -, -, hjoined⟩ | ⟨-, peer, adopted, -, -, hresumed⟩ |
      ⟨-, hclosed⟩
    · rw [hjoined] at hadded ⊢
      obtain rfl : world.pool.nextId = id := by simpa using hadded
      rw [Pool.enroll_eq]
      exact .more hperform (.more rfl (.last rfl))
    · rw [hresumed] at hadded
      exact absurd hadded (by simp)
    · exact absurd hadded (hclosed id).1
  · refine .last ?_
    rw [perform, World.seat_settled fun id h => hadded ⟨id, h⟩]
    split
    · next id _ heq => exact absurd ⟨id, congrArg Prod.fst heq⟩ hadded
    · next heq => rw [heq]

theorem alone_expel (id : Nat) (goodbye forget : Bool) :
    (expel id goodbye forget).Alone world (world.takePeer id goodbye forget).2 := by
  cases hmember : world.pool.member? id with
  | none =>
      rw [World.takePeer, hmember]
      exact .last (by rw [perform, hmember])
  | some peer =>
      obtain rfl : peer.id = id := Pool.id_of_member? hmember
      -- whoever has said goodbye is still the member that was taken out
      have hcard : ((peer.part goodbye world.net).1.disconnect
          (peer.part goodbye world.net).2).2.1.card = peer.card := peer.card_part goodbye world.net
      rw [World.takePeer_of_member hmember, Pool.expel_eq hcard]
      refine .more (by rw [perform, hmember]) (.more rfl ?_)
      cases forget with
      | false => exact .last rfl
      | true => exact .more rfl (.last rfl)

theorem alone_hear (id : Nat) (message : Message) :
    (hear id message).Alone world (world.handleMessage id message) := by
  rw [World.handleMessage]
  cases hmember : world.pool.member? id with
  | none => exact .last (by rw [perform, hmember])
  | some peer =>
      have hid : peer.id = id := Pool.id_of_member? hmember
      have hdelivered (hpassed : (hear id message).perform world =
          (some (.deliver peer.card message), world)) : (hear id message).Alone world
            (world.withPool (·.tell (.message id peer.endpoint message))) :=
        .more hpassed (hid ▸ .last rfl)
      rcases hkind : MessageKind.ofTag? message.tag with _ | kind
      · exact hdelivered (by rw [perform, hmember, hkind])
      · cases kind
        case requestPeers | returnPeers | handshake =>
          exact .last (by rw [perform, hmember, hkind])
        case disconnect =>
          exact .more (by rw [perform, hmember, hkind]) (alone_expel id false true)
        all_goals exact hdelivered (by rw [perform, hmember, hkind])

/-! ## What sections enter -/

/-- What a section enters in the ledger of a pool, and what is left of its errand. -/
inductive Move (ledger : Ledger) : Errand → Option Errand → Ledger → Prop
  | joined {link : Link} {card : Peer.Card} (now : Int64)
      (hadmits : ledger.Admits (.join card now)) :
      Move ledger (.join link) (some (.record card)) (ledger.enlist card)
  -- no peer can be started on the link.  The id was drawn before
  | unstarted {link : Link} : Move ledger (.join link) none (ledger.enter .skip)
  | recorded {card : Peer.Card} (now : Int64) :
      Move ledger (.record card) (some (.announce card)) (ledger.record card.endpoint now)
  | announced {card : Peer.Card} :
      Move ledger (.announce card) none (ledger.tell (.joined card.id card.endpoint))
  | taken {peer : Peer} {goodbye forget : Bool} (hmember : peer.card ∈ ledger.members) :
      Move ledger (.expel peer.id goodbye forget) (some (.dismiss peer goodbye forget))
        (ledger.unlist peer.id)
  | dismissed {peer : Peer} {goodbye forget : Bool} :
      Move ledger (.dismiss peer goodbye forget)
        (some (if forget then .strike peer.card else .bid peer.card)) ledger
  | struck {card : Peer.Card} :
      Move ledger (.strike card) (some (.bid card)) (ledger.strike card.endpoint)
  | parted {card : Peer.Card} :
      Move ledger (.bid card) none (ledger.tell (.left card.id card.endpoint))
  | heard {card : Peer.Card} {message : Message} (hmember : card ∈ ledger.members) :
      Move ledger (.hear card.id message) (some (.deliver card message)) ledger
  | leaving {id : Nat} {message : Message} :
      Move ledger (.hear id message) (some (.expel id false true)) ledger
  | delivered {card : Peer.Card} {message : Message} :
      Move ledger (.deliver card message) none
        (ledger.tell (.message card.id card.endpoint message))
  | nothing {errand : Errand} (hbegins : errand.Begins) : Move ledger errand none ledger

/-- A section enters what is said of it. -/
theorem move_perform (horderly : world.pool.Orderly) (errand : Errand) :
    Move world.pool.ledger errand (errand.perform world).1 (errand.perform world).2.pool.ledger := by
  cases errand with
  | join link =>
      rcases world.addPeer_cases link with ⟨hself, hkey, hendpoint, hjoined⟩ |
        ⟨-, peer, adopted, hkey, hadopt, hresumed⟩ | ⟨hclosed, hother⟩
      · have hadded : (world.addPeer link).1 = .ok (.added world.pool.nextId) := by rw [hjoined]
        rw [perform, World.seat_added hadded]
        show Move _ _ _ (world.pool.enlist link).ledger
        rw [Pool.ledger_enlist]
        exact .joined world.net.clock (Pool.admits_join hself hkey hendpoint _)
      · rw [perform, World.seat_settled (by rw [hresumed]; exact fun _ => nofun), hresumed]
        show Move _ _ _ (world.pool.change peer.id fun _ => adopted).ledger
        rw [Pool.ledger_adopted horderly (Pool.mem_of_withKey? hkey).1 hadopt]
        exact .nothing trivial
      · have hsettled : ∀ id, (world.addPeer link).1 ≠ .ok (.added id) := fun id => (hother id).1
        rw [perform, World.seat_settled hsettled]
        split
        · next id _ heq => exact absurd (congrArg Prod.fst heq) (hsettled id)
        · next heq =>
            rw [heq] at hclosed
            obtain rfl : _ = world.withNet _ := hclosed
            exact .nothing trivial
  | record card => exact .recorded world.net.clock
  | announce card => exact .announced
  | expel id goodbye forget =>
      rw [perform]
      cases hmember : world.pool.member? id with
      | none => exact .nothing trivial
      | some peer =>
          obtain rfl : peer.id = id := Pool.id_of_member? hmember
          show Move _ _ _ (world.pool.unlist peer.id).ledger
          rw [Pool.ledger_unlist horderly]
          exact .taken (Pool.mem_roster (Pool.mem_of_member? hmember))
  | dismiss peer goodbye forget => exact .dismissed
  | strike card => exact .struck
  | bid card => exact .parted
  | hear id message =>
      rw [perform]
      cases hmember : world.pool.member? id with
      | none => exact .nothing trivial
      | some peer =>
          obtain rfl : peer.id = id := Pool.id_of_member? hmember
          have hpeer : peer ∈ world.pool.members := Pool.mem_of_member? hmember
          dsimp only
          split
          · rw [World.ledger_answerRequest horderly hpeer]
            exact .nothing trivial
          · rw [World.ledger_acceptList]
            exact .nothing trivial
          · exact .leaving
          · exact .nothing trivial
          · have hcard : peer.card ∈ world.pool.ledger.members := Pool.mem_roster hpeer
            exact .heard hcard
  | deliver card message => exact .delivered

end Errand

end Overlay
