import Overlay.Proofs.Pool.Membership
import Overlay.Proofs.Pool.Storing

/-!
# The ledger of a pool

Who the members of a pool are, what the application was told of them and what
the store knows go together.  A ledger holds the three, and changes by entries:
a node joins, an id is drawn for nobody, a member leaves, or a message of a
member is passed on.  Every entry that a ledger admits keeps the three in step.
-/

namespace Overlay

open Wire

namespace PoolEvent

/-- The id of the peer that an event is about. -/
def peer : PoolEvent → Nat
  | .joined id _ => id
  | .left id _ => id
  | .message id _ _ => id

def isMessage : PoolEvent → Bool
  | .message .. => true
  | _ => false

/-- The id of the peer that has joined. -/
def joined? : PoolEvent → Option Nat
  | .joined id _ => some id
  | _ => none

/-- The id of the peer that has left. -/
def left? : PoolEvent → Option Nat
  | .left id _ => some id
  | _ => none

end PoolEvent

structure Ledger where
  /-- The members in the order in which they joined. -/
  members : List Peer.Card
  /-- What the application was told. -/
  told : List PoolEvent
  store : Option PeerStore
  nextId : Nat
  localKey : Bytes

def Pool.ledger (pool : Pool) : Ledger where
  members := pool.roster
  told := pool.told
  store := pool.store
  nextId := pool.nextId
  localKey := pool.localKey

namespace Ledger

/-- What changes a ledger. -/
inductive Entry
  -- a node joins, and the store records it as seen at a time
  | join (card : Peer.Card) (now : Int64)
  -- an id is drawn for nobody
  | skip
  | leave (card : Peer.Card) (forget : Bool)
  -- a message of a member is passed on
  | deliver (card : Peer.Card) (message : Message)

/-- What the application is told of an entry. -/
def Entry.events : Entry → List PoolEvent
  | .join card _ => [.joined card.id card.endpoint]
  | .skip => []
  | .leave card _ => [.left card.id card.endpoint]
  | .deliver card message => [.message card.id card.endpoint message]

/-- It passes no message on, and forgets whoever leaves. -/
def Entry.IsRoutine : Entry → Prop
  | .leave _ forget => forget = true
  | .deliver .. => False
  | _ => True

def enter (ledger : Ledger) : Entry → Ledger
  | .join card now => { ledger with
      members := ledger.members ++ [card]
      told := ledger.told ++ [.joined card.id card.endpoint]
      store := ledger.store.map (·.add card.endpoint now)
      nextId := ledger.nextId + 1 }
  | .skip => { ledger with nextId := ledger.nextId + 1 }
  | .leave card forget => { ledger with
      members := ledger.members.filter (·.id ≠ card.id)
      told := ledger.told ++ [.left card.id card.endpoint]
      store := if forget then ledger.store.map (·.remove card.endpoint) else ledger.store }
  | .deliver card message => { ledger with
      told := ledger.told ++ [.message card.id card.endpoint message] }

/-- Only a node that is not known joins, under the next id, and only a member leaves or is heard. -/
def Admits (ledger : Ledger) : Entry → Prop
  | .join card _ => card.id = ledger.nextId ∧ card.identity.publicKey ≠ ledger.localKey ∧
      ∀ other ∈ ledger.members, other.identity.publicKey ≠ card.identity.publicKey ∧
        other.endpoint ≠ card.endpoint
  | .skip => True
  | .leave card _ => card ∈ ledger.members
  | .deliver card _ => card ∈ ledger.members

/-- What the application was told of a peer. -/
def about (ledger : Ledger) (id : Nat) : List PoolEvent :=
  ledger.told.filter (·.peer == id)

/-- The ids that have joined. -/
def joins (ledger : Ledger) : List Nat :=
  ledger.told.filterMap (·.joined?)

/-- The ids that have left. -/
def leaves (ledger : Ledger) : List Nat :=
  ledger.told.filterMap (·.left?)

/-- There is a store, and it knows an endpoint. -/
def Knows (ledger : Ledger) (e : Endpoint) : Prop :=
  ∃ store ∈ ledger.store, store.contains e

/-- The members of a pool, what the application was told and the store are in step. -/
structure InStep (ledger : Ledger) : Prop where
  apart : ledger.members.Pairwise Peer.Card.Apart
  drawn : ∀ card ∈ ledger.members, card.id < ledger.nextId
  foreign : ∀ card ∈ ledger.members, card.identity.publicKey ≠ ledger.localKey
  /-- Nothing was told of an id that was not drawn. -/
  known : ∀ event ∈ ledger.told, event.peer < ledger.nextId
  /-- Of a member it was told that it joined, and then its messages. -/
  present : ∀ card ∈ ledger.members, ∃ messages : List Message, ledger.about card.id =
    .joined card.id card.endpoint :: messages.map (.message card.id card.endpoint)
  /-- Of another peer it was told that it joined, then its messages, and at last that it left. -/
  past : ∀ id, (∀ card ∈ ledger.members, card.id ≠ id) → ledger.about id = [] ∨
    ∃ (e : Endpoint) (messages : List Message), ledger.about id =
      .joined id e :: messages.map (.message id e) ++ [.left id e]
  /-- The members have joined and have not left, and stand in the order in which they joined. -/
  order : ledger.members.map (·.id) = ledger.joins.filter (· ∉ ledger.leaves)
  stored : ∀ store ∈ ledger.store, ∀ card ∈ ledger.members, store.contains card.endpoint

variable {ledger last : Ledger} {entry : Entry} {entries more : List Entry}

/-! ## Single entries -/

theorem told_enter (ledger : Ledger) (entry : Entry) :
    (ledger.enter entry).told = ledger.told ++ entry.events := by
  cases entry with
  | skip => exact (List.append_nil _).symm
  | _ => rfl

theorem about_enter (ledger : Ledger) (entry : Entry) (id : Nat) :
    (ledger.enter entry).about id = ledger.about id ++ entry.events.filter (·.peer == id) := by
  rw [about, told_enter, List.filter_append, about]

/-- An entry about another peer adds nothing to what was told of a peer. -/
theorem about_enter_of_ne {id : Nat} (hother : ∀ event ∈ entry.events, event.peer ≠ id) :
    (ledger.enter entry).about id = ledger.about id := by
  rw [about_enter, List.filter_eq_nil_iff.2, List.append_nil]
  simpa using hother

theorem joins_enter (ledger : Ledger) (entry : Entry) :
    (ledger.enter entry).joins = ledger.joins ++ entry.events.filterMap (·.joined?) := by
  rw [joins, told_enter, List.filterMap_append, joins]

theorem leaves_enter (ledger : Ledger) (entry : Entry) :
    (ledger.enter entry).leaves = ledger.leaves ++ entry.events.filterMap (·.left?) := by
  rw [leaves, told_enter, List.filterMap_append, leaves]

theorem mem_members_join {card other : Peer.Card} {now : Int64} :
    other ∈ (ledger.enter (.join card now)).members ↔ other ∈ ledger.members ∨ other = card := by
  simp [enter]

theorem mem_members_leave {card other : Peer.Card} {forget : Bool} :
    other ∈ (ledger.enter (.leave card forget)).members ↔
      other ∈ ledger.members ∧ other.id ≠ card.id := by
  simp [enter]

theorem nextId_le_enter (ledger : Ledger) (entry : Entry) :
    ledger.nextId ≤ (ledger.enter entry).nextId := by
  cases entry with
  | join card now => exact Nat.le_succ _
  | skip => exact Nat.le_succ _
  | _ => exact Nat.le_refl _

/-- A store stays, and no entry makes one. -/
theorem isSome_store_enter (ledger : Ledger) (entry : Entry) :
    (ledger.enter entry).store.isSome = ledger.store.isSome := by
  cases entry with
  | join card now => exact Option.isSome_map
  | leave card forget => cases forget with
    | false => rfl
    | true => exact Option.isSome_map
  | _ => rfl

/-- An endpoint that is no longer known is that of a member that has left and was forgotten. -/
theorem Knows.enter {e : Endpoint} (hknows : ledger.Knows e) :
    (ledger.enter entry).Knows e ∨ ∃ card, entry = .leave card true ∧ card.endpoint = e := by
  obtain ⟨store, hstore, hcontains⟩ := hknows
  cases entry with
  | join card now =>
      refine Or.inl ⟨store.add card.endpoint now, Option.mem_map_of_mem _ hstore, ?_⟩
      rw [PeerStore.contains_add, hcontains, Bool.or_true]
  | skip => exact Or.inl ⟨store, hstore, hcontains⟩
  | deliver card message => exact Or.inl ⟨store, hstore, hcontains⟩
  | leave card forget =>
      cases forget with
      | false => exact Or.inl ⟨store, hstore, hcontains⟩
      | true =>
          by_cases hsame : card.endpoint = e
          · exact Or.inr ⟨card, rfl, hsame⟩
          · refine Or.inl ⟨store.remove card.endpoint, Option.mem_map_of_mem _ hstore, ?_⟩
            rw [PeerStore.contains_remove, hcontains, Bool.and_true]
            exact bne_iff_ne.2 hsame

namespace InStep

theorem ids (hstep : ledger.InStep) : (ledger.members.map (·.id)).Nodup := by
  have hids := hstep.apart.map (·.id) fun _ _ => Peer.Card.Apart.id
  exact hids.imp Nat.ne_of_lt

theorem endpoints (hstep : ledger.InStep) : (ledger.members.map (·.endpoint)).Nodup := by
  have hendpoints := hstep.apart.map (·.endpoint) fun _ _ => Peer.Card.Apart.endpoint
  exact hendpoints

/-- Members of one id are one member. -/
theorem eq_of_id (hstep : ledger.InStep) {first second : Peer.Card}
    (hfirst : first ∈ ledger.members) (hsecond : second ∈ ledger.members)
    (hid : first.id = second.id) : first = second :=
  List.inj_on_of_nodup_map hstep.ids hfirst hsecond hid

/-- Nothing was told of the id that is drawn next. -/
theorem about_nextId (hstep : ledger.InStep) : ledger.about ledger.nextId = [] := by
  refine List.filter_eq_nil_iff.2 fun event hevent => ?_
  simpa using Nat.ne_of_lt (hstep.known event hevent)

/-- Only ids that were drawn have left. -/
theorem lt_of_leaves (hstep : ledger.InStep) {id : Nat} (hleft : id ∈ ledger.leaves) :
    id < ledger.nextId := by
  obtain ⟨event, hevent, hid⟩ := List.mem_filterMap.1 hleft
  cases event with
  | left other e =>
      obtain rfl : other = id := Option.some.inj hid
      exact hstep.known _ hevent
  | joined other e => cases hid
  | message other e message => cases hid

/-- Nothing is told of an id that was not drawn, if the entry tells nothing of one. -/
theorem known_enter (hstep : ledger.InStep)
    (hevents : ∀ event ∈ entry.events, event.peer < (ledger.enter entry).nextId) :
    ∀ event ∈ (ledger.enter entry).told, event.peer < (ledger.enter entry).nextId := by
  rw [told_enter]
  intro event hevent
  rcases List.mem_append.1 hevent with hbefore | hnow
  · exact Nat.lt_of_lt_of_le (hstep.known event hbefore) (nextId_le_enter ledger entry)
  · exact hevents event hnow

/-- The store knows the members and the node that joins. -/
theorem stored_join (hstep : ledger.InStep) (card : Peer.Card) (now : Int64) :
    ∀ store ∈ (ledger.enter (.join card now)).store,
      ∀ other ∈ (ledger.enter (.join card now)).members, store.contains other.endpoint := by
  intro store hstore other hother
  obtain ⟨before, hbefore, rfl⟩ := Option.map_eq_some_iff.1 hstore
  rw [PeerStore.contains_add]
  rcases mem_members_join.1 hother with hmember | rfl
  · rw [hstep.stored before hbefore other hmember, Bool.or_true]
  · rw [beq_self_eq_true, Bool.true_or]

/-- A node joins that is not known. -/
theorem enter_join (hstep : ledger.InStep) {card : Peer.Card} {now : Int64}
    (hadmits : ledger.Admits (.join card now)) : (ledger.enter (.join card now)).InStep := by
  obtain ⟨hnext, hself, hnew⟩ := hadmits
  have hids : ∀ other ∈ ledger.members, other.id < card.id := by
    rw [hnext]
    exact hstep.drawn
  have hdrawn : card.id < ledger.nextId + 1 := hnext ▸ Nat.lt_succ_self card.id
  have hsame {id : Nat} (hne : card.id ≠ id) :
      (ledger.enter (.join card now)).about id = ledger.about id :=
    about_enter_of_ne (by simpa [Entry.events, PoolEvent.peer] using hne)
  constructor
  case apart =>
    refine List.pairwise_append.2 ⟨hstep.apart, List.pairwise_singleton .., ?_⟩
    intro other hother joined hjoined
    obtain rfl := List.mem_singleton.1 hjoined
    exact ⟨hids other hother, (hnew other hother).1, (hnew other hother).2⟩
  case drawn =>
    intro other hother
    rcases mem_members_join.1 hother with hbefore | rfl
    · exact Nat.lt_succ_of_lt (hstep.drawn other hbefore)
    · exact hdrawn
  case foreign =>
    intro other hother
    rcases mem_members_join.1 hother with hbefore | rfl
    · exact hstep.foreign other hbefore
    · exact hself
  case known => exact hstep.known_enter fun event hevent => List.mem_singleton.1 hevent ▸ hdrawn
  case present =>
    intro other hother
    rcases mem_members_join.1 hother with hbefore | rfl
    · rw [hsame (Nat.ne_of_gt (hids other hbefore))]
      exact hstep.present other hbefore
    · refine ⟨[], ?_⟩
      rw [about_enter, hnext, hstep.about_nextId]
      simp [Entry.events, PoolEvent.peer, hnext]
  case past =>
    intro id hnobody
    have hne : card.id ≠ id := hnobody card (mem_members_join.2 (Or.inr rfl))
    rw [hsame hne]
    exact hstep.past id fun other hother => hnobody other (mem_members_join.2 (Or.inl hother))
  case order =>
    have hstays : card.id ∉ ledger.leaves := by
      rw [hnext]
      exact fun hleft => Nat.lt_irrefl _ (hstep.lt_of_leaves hleft)
    show (ledger.members ++ [card]).map (·.id) = _
    rw [List.map_append, hstep.order, joins_enter, leaves_enter]
    simp [Entry.events, PoolEvent.joined?, PoolEvent.left?, hstays]
  case stored => exact hstep.stored_join card now

/-- An id is drawn for nobody. -/
theorem enter_skip (hstep : ledger.InStep) : (ledger.enter .skip).InStep where
  apart := hstep.apart
  drawn := fun card hcard => Nat.lt_succ_of_lt (hstep.drawn card hcard)
  foreign := hstep.foreign
  known := fun event hevent => Nat.lt_succ_of_lt (hstep.known event hevent)
  present := hstep.present
  past := hstep.past
  order := hstep.order
  stored := hstep.stored

/-- The store knows the members that stay, as nobody of them has the endpoint of the one that
leaves. -/
theorem stored_leave (hstep : ledger.InStep) {card : Peer.Card} (forget : Bool)
    (hmember : card ∈ ledger.members) :
    ∀ store ∈ (ledger.enter (.leave card forget)).store,
      ∀ other ∈ (ledger.enter (.leave card forget)).members, store.contains other.endpoint := by
  intro store hstore other hother
  obtain ⟨hbefore, hne⟩ := mem_members_leave.1 hother
  have hapart : card.endpoint ≠ other.endpoint := fun hsame => hne
    (congrArg (·.id) (List.inj_on_of_nodup_map hstep.endpoints hmember hbefore hsame).symm)
  cases forget with
  | false => exact hstep.stored store hstore other hbefore
  | true =>
      obtain ⟨before, hstored, rfl⟩ := Option.map_eq_some_iff.1 hstore
      rw [PeerStore.contains_remove, hstep.stored before hstored other hbefore, Bool.and_true]
      exact bne_iff_ne.2 hapart

/-- A member leaves, and is forgotten or not. -/
theorem enter_leave (hstep : ledger.InStep) {card : Peer.Card} {forget : Bool}
    (hmember : card ∈ ledger.members) : (ledger.enter (.leave card forget)).InStep := by
  have hsame {id : Nat} (hne : card.id ≠ id) :
      (ledger.enter (.leave card forget)).about id = ledger.about id :=
    about_enter_of_ne (by simpa [Entry.events, PoolEvent.peer] using hne)
  constructor
  case apart => exact hstep.apart.filter _
  case drawn => exact fun other hother => hstep.drawn other (mem_members_leave.1 hother).1
  case foreign => exact fun other hother => hstep.foreign other (mem_members_leave.1 hother).1
  case known =>
    exact hstep.known_enter fun event hevent =>
      List.mem_singleton.1 hevent ▸ hstep.drawn card hmember
  case present =>
    intro other hother
    obtain ⟨hbefore, hne⟩ := mem_members_leave.1 hother
    rw [hsame (Ne.symm hne)]
    exact hstep.present other hbefore
  case past =>
    intro id hnobody
    by_cases hid : card.id = id
    · subst hid
      obtain ⟨messages, habout⟩ := hstep.present card hmember
      refine Or.inr ⟨card.endpoint, messages, ?_⟩
      rw [about_enter, habout]
      simp [Entry.events, PoolEvent.peer]
    · rw [hsame hid]
      refine hstep.past id fun other hother hother' => ?_
      exact hnobody other (mem_members_leave.2 ⟨hother, hother' ▸ Ne.symm hid⟩) hother'
  case order =>
    have hmembers : (ledger.enter (.leave card forget)).members.map (·.id) =
        (ledger.members.map (·.id)).filter (· ≠ card.id) := by
      rw [List.filter_map]
      rfl
    rw [hmembers, hstep.order, List.filter_filter, joins_enter, leaves_enter]
    simp [Entry.events, PoolEvent.joined?, PoolEvent.left?, Bool.and_comm]
  case stored => exact hstep.stored_leave forget hmember

/-- A message of a member is passed on. -/
theorem enter_deliver (hstep : ledger.InStep) {card : Peer.Card} {message : Message}
    (hmember : card ∈ ledger.members) : (ledger.enter (.deliver card message)).InStep := by
  have hsame {id : Nat} (hne : card.id ≠ id) :
      (ledger.enter (.deliver card message)).about id = ledger.about id :=
    about_enter_of_ne (by simpa [Entry.events, PoolEvent.peer] using hne)
  constructor
  case apart => exact hstep.apart
  case drawn => exact hstep.drawn
  case foreign => exact hstep.foreign
  case known =>
    exact hstep.known_enter fun event hevent =>
      List.mem_singleton.1 hevent ▸ hstep.drawn card hmember
  case present =>
    intro other hother
    by_cases hid : card.id = other.id
    · obtain rfl := hstep.eq_of_id hmember hother hid
      obtain ⟨messages, habout⟩ := hstep.present card hmember
      refine ⟨messages ++ [message], ?_⟩
      rw [about_enter, habout]
      simp [Entry.events, PoolEvent.peer]
    · rw [hsame hid]
      exact hstep.present other hother
  case past =>
    intro id hnobody
    rw [hsame (hnobody card hmember)]
    exact hstep.past id hnobody
  case order =>
    refine hstep.order.trans ?_
    rw [joins_enter, leaves_enter]
    simp [Entry.events, PoolEvent.joined?, PoolEvent.left?]
  case stored => exact hstep.stored

/-- Every entry that is admitted keeps a ledger in step. -/
theorem enter (hstep : ledger.InStep) (hadmits : ledger.Admits entry) :
    (ledger.enter entry).InStep := by
  cases entry with
  | join card now => exact hstep.enter_join hadmits
  | skip => exact hstep.enter_skip
  | leave card forget => exact hstep.enter_leave hadmits
  | deliver card message => exact hstep.enter_deliver hadmits

end InStep

theorem Entry.IsRoutine.isMessage_eq_false (hroutine : entry.IsRoutine) :
    ∀ event ∈ entry.events, event.isMessage = false := by
  cases entry with
  | deliver card message => exact hroutine.elim
  | skip => exact nofun
  | _ => simp [Entry.events, PoolEvent.isMessage]

/-! ## Any number of entries -/

/-- Entries that are admitted one after the other lead from one ledger to another. -/
inductive Leads : Ledger → List Entry → Ledger → Prop
  | nil {ledger : Ledger} : Leads ledger [] ledger
  | cons {ledger last : Ledger} {entry : Entry} {entries : List Entry}
      (hadmits : ledger.Admits entry) (hrest : Leads (ledger.enter entry) entries last) :
      Leads ledger (entry :: entries) last

namespace Leads

theorem single (hadmits : ledger.Admits entry) : Leads ledger [entry] (ledger.enter entry) :=
  .cons hadmits .nil

theorem append {middle : Ledger} (hfirst : Leads ledger entries middle)
    (hrest : Leads middle more last) : Leads ledger (entries ++ more) last := by
  induction hfirst with
  | nil => exact hrest
  | cons hadmits _ ih => exact .cons hadmits (ih hrest)

theorem inStep (hleads : Leads ledger entries last) (hstep : ledger.InStep) : last.InStep := by
  induction hleads with
  | nil => exact hstep
  | cons hadmits _ ih => exact ih (hstep.enter hadmits)

/-- The application is told of every entry. -/
theorem told (hleads : Leads ledger entries last) :
    last.told = ledger.told ++ entries.flatMap Entry.events := by
  induction hleads with
  | nil => exact (List.append_nil _).symm
  | cons _ _ ih => rw [ih, told_enter, List.append_assoc, List.flatMap_cons]

theorem isSome_store (hleads : Leads ledger entries last) :
    last.store.isSome = ledger.store.isSome := by
  induction hleads with
  | nil => rfl
  | cons _ _ ih => exact ih.trans (isSome_store_enter _ _)

/-- An endpoint that is no longer known is that of a member that has left and was forgotten. -/
theorem forgotten (hleads : Leads ledger entries last) {e : Endpoint} (hknows : ledger.Knows e)
    (hforgotten : ¬ last.Knows e) : ∃ card, .leave card true ∈ entries ∧ card.endpoint = e := by
  induction hleads with
  | nil => exact absurd hknows hforgotten
  | cons _ _ ih =>
      rcases hknows.enter with hstill | ⟨card, hleft, he⟩
      · obtain ⟨card, hleft, he⟩ := ih hstill hforgotten
        exact ⟨card, List.mem_cons_of_mem _ hleft, he⟩
      · exact ⟨card, hleft ▸ List.mem_cons_self, he⟩

/-- If members leave and none is forgotten, the store is as it was. -/
theorem store_eq (hleads : Leads ledger entries last)
    (hleft : ∀ entry ∈ entries, ∃ card, entry = .leave card false) :
    last.store = ledger.store := by
  induction hleads with
  | nil => rfl
  | cons _ _ ih =>
      obtain ⟨⟨card, rfl⟩, hrest⟩ := List.forall_mem_cons.1 hleft
      exact ih hrest

end Leads

end Ledger

/-! ## Sections that enter something, and sections that do not -/

namespace Pool

variable {pool : Pool}

theorem Orderly.of_ledger (hstep : pool.ledger.InStep) : pool.Orderly where
  apart := hstep.apart
  drawn := hstep.drawn
  foreign := hstep.foreign

theorem Orderly.roster_ids (horderly : pool.Orderly) : (pool.roster.map (·.id)).Nodup := by
  have hids := horderly.apart.map (·.id) fun _ _ => Peer.Card.Apart.id
  exact hids.imp Nat.ne_of_lt

/-- A change of a member that leaves its card enters nothing. -/
theorem ledger_change {id : Nat} {f : Peer → Peer}
    (hroster : (pool.change id f).roster = pool.roster) :
    (pool.change id f).ledger = pool.ledger := by
  rw [ledger, hroster]
  rfl

/-- A member that is resumed has the card that it had. -/
theorem ledger_adopted (horderly : pool.Orderly) {peer adopted : Peer}
    (hmember : peer ∈ pool.members) {line : Nat} (hadopt : peer.adopt line = some adopted) :
    (pool.change peer.id fun _ => adopted).ledger = pool.ledger :=
  ledger_change (horderly.roster_change hmember
    (congrArg (·.toCard) (Peer.gist_of_adopt hadopt)))

theorem ledger_enroll (pool : Pool) (link : Link) (now : Int64) :
    (pool.enroll link now).ledger =
      pool.ledger.enter (.join ⟨pool.nextId, link.identity, link.endpoint⟩ now) := by
  rw [ledger, roster_enroll]
  rfl

/-- A pool admits a node that it does not know. -/
theorem admits_join {link : Link} (hself : link.identity.publicKey ≠ pool.localKey)
    (hkey : pool.withKey? link.identity.publicKey = none)
    (hendpoint : pool.atEndpoint? link.endpoint = none) (now : Int64) :
    pool.ledger.Admits (.join ⟨pool.nextId, link.identity, link.endpoint⟩ now) := by
  refine ⟨rfl, hself, fun card hcard => ?_⟩
  obtain ⟨peer, hmember, rfl⟩ := List.mem_map.1 hcard
  exact ⟨key_ne_of_withKey? hkey peer hmember, endpoint_ne_of_atEndpoint? hendpoint peer hmember⟩

/-- A message that is queued on a member enters nothing. -/
theorem ledger_send (horderly : pool.Orderly) {peer : Peer} (hmember : peer ∈ pool.members)
    {job : Job} {after : Pool} (hsend : pool.send peer job = .ok after) :
    after.ledger = pool.ledger := by
  obtain ⟨queued, henqueue, rfl⟩ := exists_of_send hsend
  refine ledger_change ?_
  rw [← map_toCard_gists, gists_change_queued henqueue (horderly.eq_gist hmember),
    map_toCard_gists]

/-- The member of an id is that of the ledger. -/
theorem find?_members (pool : Pool) (id : Nat) :
    pool.ledger.members.find? (·.id == id) = (pool.member? id).map Peer.card :=
  List.find?_map

/-- To take the first member of an id out of the list takes out all of that id. -/
theorem ledger_take (horderly : pool.Orderly) (id : Nat) :
    { pool with members := pool.members.eraseP (·.id == id) }.ledger =
      { pool.ledger with members := pool.ledger.members.filter (·.id ≠ id) } := by
  have hroster : (pool.members.eraseP (·.id == id)).map Peer.card =
      pool.roster.filter (·.id ≠ id) :=
    List.eraseP_map.symm.trans (eraseP_eq_filter Peer.Card.id horderly.roster_ids id)
  rw [ledger, roster, hroster]
  rfl

end Pool

namespace World

variable {world : World}

/-- A link that is offered enters that a node joins, or nothing. -/
theorem ledger_addPeer (horderly : world.pool.Orderly) (link : Link) :
    (world.addPeer link).2.pool.ledger = world.pool.ledger ∨
      ∃ card now, world.pool.ledger.Admits (.join card now) ∧
        (world.addPeer link).2.pool.ledger = world.pool.ledger.enter (.join card now) := by
  rcases world.addPeer_cases link with ⟨hself, hkey, hendpoint, hadded⟩ |
    ⟨-, peer, adopted, hkey, hadopt, hresumed⟩ | ⟨hclosed, -⟩
  · refine Or.inr ⟨_, world.net.clock, Pool.admits_join hself hkey hendpoint _, ?_⟩
    rw [hadded]
    exact Pool.ledger_enroll ..
  · refine Or.inl ?_
    rw [hresumed]
    exact Pool.ledger_adopted horderly (Pool.mem_of_withKey? hkey).1 hadopt
  · refine Or.inl ?_
    rw [hclosed]
    rfl

theorem ledger_post (horderly : world.pool.Orderly) (id : Nat) (message : Message) :
    (world.withPool fun pool =>
      match pool.member? id with
      | none => pool
      | some peer =>
        match pool.send peer { message } with
        | .error _ => pool
        | .ok pool => pool).pool.ledger = world.pool.ledger := by
  simp only [withPool]
  split
  · rfl
  · next peer hmember =>
    split
    · rfl
    · next after hsend => exact Pool.ledger_send horderly (Pool.mem_of_member? hmember) hsend

theorem ledger_broadcastAndWait (horderly : world.pool.Orderly) (message : Message) :
    (world.broadcastAndWait message).2.pool.ledger = world.pool.ledger := by
  obtain ⟨members, tickets, verdicts, hpool⟩ := world.exists_broadcastAndWait message
  have hroster : (world.broadcastAndWait message).2.pool.roster = world.pool.roster := by
    rw [← Pool.map_toCard_gists, gists_broadcastAndWait horderly, Pool.map_toCard_gists]
  rw [Pool.ledger, hroster, hpool]
  rfl

end World

end Overlay
