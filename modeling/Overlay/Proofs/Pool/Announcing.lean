import Overlay.Proofs.Pool.MembershipThreads

/-!
# What the application is told while threads come and go

The application is told of a change of the members after the list has changed,
and of a message after its peer was looked up.  So it may be told of a message
before it is told that the peer has joined, or after it was told that the peer
has left (`MembershipThreads.told_out_of_order`).  Of no peer it is told twice that it
joined or left, and if nothing else is done about a peer while its joining or
leaving is under way, what is told of the peer is in order
(`MembershipThreads.announced_of_run`).
-/

namespace Overlay

open Wire

/-- Whatever is told of a peer but that it joined comes after that, and nothing comes after it was
told that it left. -/
def InOrder (id : Nat) (told : List PoolEvent) : Prop :=
  ∀ before event behind, told = before ++ event :: behind → event.peer = id →
    (event.joined? = none → id ∈ before.filterMap (·.joined?)) ∧ id ∉ before.filterMap (·.left?)

theorem inOrder_nil (id : Nat) : InOrder id [] := by
  intro before event behind htold
  exact absurd htold (by simp)

theorem InOrder.concat {id : Nat} {told : List PoolEvent} (horder : InOrder id told)
    {event : PoolEvent} (hjoined : event.peer = id → event.joined? = none →
      id ∈ told.filterMap (·.joined?))
    (hleft : event.peer = id → id ∉ told.filterMap (·.left?)) : InOrder id (told ++ [event]) := by
  intro before other behind htold hother
  rcases List.eq_nil_or_concat behind with rfl | ⟨more, last, rfl⟩
  · obtain ⟨rfl, hlast⟩ := List.append_inj' htold rfl
    obtain rfl : event = other := by simpa using hlast
    exact ⟨hjoined hother, hleft hother⟩
  · rw [List.concat_eq_append, ← List.cons_append, ← List.append_assoc] at htold
    exact horder before other more (List.append_inj' htold rfl).1 hother

namespace Errand

/-- The application is to be told that a peer has joined. -/
def announces (id : Nat) : Errand → Bool
  | .record card => card.id = id
  | .announce card => card.id = id
  | _ => false

/-- The application is to be told that a peer has left. -/
def parts (id : Nat) : Errand → Bool
  | .dismiss peer _ _ => peer.id = id
  | .strike card => card.id = id
  | .bid card => card.id = id
  | _ => false

/-- The application is to be told of a message of a peer. -/
def delivers (id : Nat) : Errand → Bool
  | .deliver card _ => card.id = id
  | _ => false

variable {id : Nat} {errand : Errand}

theorem Begins.announces (hbegins : errand.Begins) : errand.announces id = false := by
  cases errand with
  | record card => exact hbegins.elim
  | announce card => exact hbegins.elim
  | _ => rfl

theorem Begins.parts (hbegins : errand.Begins) : errand.parts id = false := by
  cases errand with
  | dismiss peer goodbye forget => exact hbegins.elim
  | strike card => exact hbegins.elim
  | bid card => exact hbegins.elim
  | _ => rfl

theorem Begins.delivers (hbegins : errand.Begins) : errand.delivers id = false := by
  cases errand with
  | deliver card message => exact hbegins.elim
  | _ => rfl

end Errand

namespace Ledger

theorem joins_tell (ledger : Ledger) (event : PoolEvent) :
    (ledger.tell event).joins = ledger.joins ++ event.joined?.toList := by
  simp only [joins, tell, List.filterMap_append, List.filterMap_cons, List.filterMap_nil]
  cases event.joined? <;> rfl

theorem leaves_tell (ledger : Ledger) (event : PoolEvent) :
    (ledger.tell event).leaves = ledger.leaves ++ event.left?.toList := by
  simp only [leaves, tell, List.filterMap_append, List.filterMap_cons, List.filterMap_nil]
  cases event.left? <;> rfl

/-- How many members have an id. -/
def present (ledger : Ledger) (id : Nat) : Nat :=
  ledger.members.countP (·.id = id)

/-- What was and is to be told of a peer of which so many errands are about. -/
structure Accounted (ledger : Ledger) (id coming going : Nat) : Prop where
  /-- Whoever has joined is a member or has left. -/
  balance : ledger.joins.count id + coming = ledger.leaves.count id + going + ledger.present id
  once : ledger.joins.count id + coming ≤ 1
  drawn : ledger.nextId ≤ id → ledger.joins.count id + coming = 0

variable {ledger after : Ledger} {id coming going : Nat}

theorem present_enlist (ledger : Ledger) (card : Peer.Card) (id : Nat) :
    (ledger.enlist card).present id = ledger.present id + (decide (card.id = id)).toNat := by
  rw [present, enlist, List.countP_append, List.countP_singleton, present]
  by_cases hid : card.id = id <;> simp [hid]

theorem present_unlist {card : Peer.Card} (hmember : card ∈ ledger.members)
    (honly : ledger.present id ≤ 1) :
    (ledger.unlist card.id).present id + (decide (card.id = id)).toNat = ledger.present id := by
  by_cases hid : card.id = id
  · subst hid
    have hpos : 0 < ledger.present card.id :=
      List.countP_pos_iff.2 ⟨card, hmember, decide_eq_true rfl⟩
    have hnobody : (ledger.unlist card.id).present card.id = 0 :=
      List.countP_eq_zero.2 fun other hother => by simpa using (List.mem_filter.1 hother).2
    rw [hnobody, decide_eq_true rfl, Bool.toNat_true]
    omega
  · rw [decide_eq_false hid, present, unlist, List.countP_filter]
    refine List.countP_congr fun other _ => ?_
    simp only [decide_eq_true_eq, Bool.and_eq_true, ne_eq, and_iff_left_iff_imp]
    exact fun hother hsame => hid (hsame.symm.trans hother)

theorem count_joins_joined (ledger : Ledger) (other : Nat) (e : Endpoint) (id : Nat) :
    (ledger.tell (.joined other e)).joins.count id =
      ledger.joins.count id + (decide (other = id)).toNat := by
  rw [joins_tell, List.count_append]
  by_cases hid : other = id <;> simp [PoolEvent.joined?, hid]

theorem count_leaves_left (ledger : Ledger) (other : Nat) (e : Endpoint) (id : Nat) :
    (ledger.tell (.left other e)).leaves.count id =
      ledger.leaves.count id + (decide (other = id)).toNat := by
  rw [leaves_tell, List.count_append]
  by_cases hid : other = id <;> simp [PoolEvent.left?, hid]

theorem joins_tell_of_none {event : PoolEvent} (hjoined : event.joined? = none) :
    (ledger.tell event).joins = ledger.joins := by
  rw [joins_tell, hjoined]
  exact List.append_nil _

theorem leaves_tell_of_none {event : PoolEvent} (hleft : event.left? = none) :
    (ledger.tell event).leaves = ledger.leaves := by
  rw [leaves_tell, hleft]
  exact List.append_nil _

namespace Accounted

/-- Sections that are not about joining and leaving keep the accounts. -/
theorem aside (haccounted : ledger.Accounted id coming going)
    (hjoins : after.joins = ledger.joins) (hleaves : after.leaves = ledger.leaves)
    (hmembers : after.members = ledger.members) (hnext : ledger.nextId ≤ after.nextId) :
    after.Accounted id coming going where
  balance := by
    rw [hjoins, hleaves, present, hmembers]
    exact haccounted.balance
  once := hjoins ▸ haccounted.once
  drawn hlater := hjoins ▸ haccounted.drawn (Nat.le_trans hnext hlater)

/-- A node joins.  Whoever has the next id has not joined before. -/
theorem enlist (haccounted : ledger.Accounted id coming going) {card : Peer.Card}
    (hnext : card.id = ledger.nextId) :
    (ledger.enlist card).Accounted id (coming + (decide (card.id = id)).toNat) going := by
  obtain ⟨hbalance, honce, hdrawn⟩ := haccounted
  have hpresent := ledger.present_enlist card id
  have hfresh : card.id = id → ledger.joins.count id + coming = 0 :=
    fun hid => hdrawn (hid ▸ Nat.le_of_eq hnext.symm)
  refine ⟨?_, ?_, fun hlater => ?_⟩
  · rw [hpresent]
    show ledger.joins.count id + _ = ledger.leaves.count id + _ + _
    omega
  · show ledger.joins.count id + _ ≤ 1
    by_cases hid : card.id = id
    · rw [decide_eq_true hid, ← Nat.add_assoc, hfresh hid, Bool.toNat_true]
    · rw [decide_eq_false hid]
      exact honce
  · have hid : card.id ≠ id := hnext ▸ Nat.ne_of_lt hlater
    rw [decide_eq_false hid]
    exact hdrawn (Nat.le_of_succ_le hlater)

/-- The application is told that a peer has joined. -/
theorem announce {other : Nat} {e : Endpoint}
    (haccounted : ledger.Accounted id (coming + (decide (other = id)).toNat) going) :
    (ledger.tell (.joined other e)).Accounted id coming going := by
  obtain ⟨hbalance, honce, hdrawn⟩ := haccounted
  have hleaves : (ledger.tell (.joined other e)).leaves = ledger.leaves := leaves_tell_of_none rfl
  have hpresent : (ledger.tell (.joined other e)).present id = ledger.present id := rfl
  have htold : (ledger.tell (.joined other e)).joins.count id + coming =
      ledger.joins.count id + (coming + (decide (other = id)).toNat) := by
    rw [count_joins_joined]
    omega
  refine ⟨?_, htold ▸ honce, fun hid => htold ▸ hdrawn hid⟩
  rw [htold, hleaves, hpresent]
  exact hbalance

/-- A member is taken out. -/
theorem unlist (haccounted : ledger.Accounted id coming going) {card : Peer.Card}
    (hmember : card ∈ ledger.members) :
    (ledger.unlist card.id).Accounted id coming (going + (decide (card.id = id)).toNat) := by
  obtain ⟨hbalance, honce, hdrawn⟩ := haccounted
  have honly : ledger.present id ≤ 1 := by omega
  have hpresent := present_unlist hmember honly
  refine ⟨?_, honce, hdrawn⟩
  show ledger.joins.count id + _ = ledger.leaves.count id + _ + _
  omega

/-- The application is told that a peer has left. -/
theorem part {other : Nat} {e : Endpoint}
    (haccounted : ledger.Accounted id coming (going + (decide (other = id)).toNat)) :
    (ledger.tell (.left other e)).Accounted id coming going := by
  obtain ⟨hbalance, honce, hdrawn⟩ := haccounted
  have hjoins : (ledger.tell (.left other e)).joins = ledger.joins := joins_tell_of_none rfl
  have hpresent : (ledger.tell (.left other e)).present id = ledger.present id := rfl
  refine ⟨?_, hjoins ▸ honce, hjoins ▸ hdrawn⟩
  rw [hjoins, count_leaves_left, hpresent]
  omega

/-- Whatever section comes next, the accounts of a peer stay balanced. -/
theorem move {errand : Errand} {next : Option Errand}
    (haccounted : ledger.Accounted id (coming + (errand.announces id).toNat)
      (going + (errand.parts id).toNat))
    (hmove : errand.Move ledger next after) :
    after.Accounted id (coming + (next.any (·.announces id)).toNat)
      (going + (next.any (·.parts id)).toNat) := by
  cases hmove with
  | joined now hadmits => exact haccounted.enlist hadmits.1
  | announced => exact haccounted.announce
  | taken hmember => exact haccounted.unlist hmember
  | parted => exact haccounted.part
  | @dismissed peer goodbye forget => cases forget <;> exact haccounted
  | nothing hbegins =>
      rw [hbegins.announces, hbegins.parts] at haccounted
      exact haccounted
  | unstarted => exact haccounted.aside rfl rfl rfl (Nat.le_succ _)
  | delivered =>
      exact haccounted.aside (joins_tell_of_none rfl) (leaves_tell_of_none rfl) rfl (Nat.le_refl _)
  | recorded | struck | heard | leaving => exact haccounted.aside rfl rfl rfl (Nat.le_refl _)

end Accounted

/-! ## Order -/

/-- While it is still to be told that a peer joined or left, nothing else about it is under way. -/
def Patient (coming going delivering : Nat) : Prop :=
  0 < coming + going → coming + going + delivering = 1

instance (coming going delivering : Nat) : Decidable (Patient coming going delivering) :=
  inferInstanceAs (Decidable (_ → _))

/-- What was told of a peer is in order, and whoever is to be told of is a member. -/
structure Ordered (ledger : Ledger) (id coming delivering : Nat) : Prop where
  told : InOrder id ledger.told
  member : 0 < coming + delivering → 0 < ledger.present id

namespace Ordered

variable {delivering : Nat}

theorem aside (hordered : ledger.Ordered id coming delivering) (htold : after.told = ledger.told)
    (hmembers : after.members = ledger.members) : after.Ordered id coming delivering where
  told := htold ▸ hordered.told
  member hwaiting := by
    rw [present, hmembers]
    exact hordered.member hwaiting

/-- What is told of another peer changes nothing. -/
theorem tell_other (hordered : ledger.Ordered id coming delivering) {event : PoolEvent}
    (hother : event.peer ≠ id) : (ledger.tell event).Ordered id coming delivering where
  told := hordered.told.concat (fun hsame => absurd hsame hother) fun hsame => absurd hsame hother
  member := hordered.member

theorem announce (hordered : ledger.Ordered id (coming + 1) delivering)
    (haccounted : ledger.Accounted id (coming + 1) going)
    (hpatient : Patient (coming + 1) going delivering) (e : Endpoint) :
    (ledger.tell (.joined id e)).Ordered id coming delivering := by
  have halone := hpatient (by omega)
  have hmember := hordered.member (by omega)
  have hstays : ledger.leaves.count id = 0 := by
    have hbalance := haccounted.balance
    have honce := haccounted.once
    omega
  refine ⟨hordered.told.concat (fun _ => nofun) fun _ => List.count_eq_zero.1 hstays, ?_⟩
  exact fun hwaiting => absurd hwaiting (by omega)

theorem part (hordered : ledger.Ordered id coming delivering)
    (haccounted : ledger.Accounted id coming (going + 1))
    (hpatient : Patient coming (going + 1) delivering) (e : Endpoint) :
    (ledger.tell (.left id e)).Ordered id coming delivering := by
  have halone := hpatient (by omega)
  have hbalance := haccounted.balance
  have honce := haccounted.once
  have hjoined : 0 < ledger.joins.count id := by omega
  have hstays : ledger.leaves.count id = 0 := by omega
  exact ⟨hordered.told.concat (fun _ _ => List.count_pos_iff.1 hjoined)
    fun _ => List.count_eq_zero.1 hstays, hordered.member⟩

theorem deliver (hordered : ledger.Ordered id coming (delivering + 1))
    (haccounted : ledger.Accounted id coming going)
    (hpatient : Patient coming going (delivering + 1)) (e : Endpoint) (message : Message) :
    (ledger.tell (.message id e message)).Ordered id coming delivering := by
  have hmember := hordered.member (by omega)
  have hbalance := haccounted.balance
  have honce := haccounted.once
  have hsettled : coming + going = 0 := by
    by_contra hwaiting
    have := hpatient (by omega)
    omega
  have hjoined : 0 < ledger.joins.count id := by omega
  have hstays : ledger.leaves.count id = 0 := by omega
  exact ⟨hordered.told.concat (fun _ _ => List.count_pos_iff.1 hjoined)
    fun _ => List.count_eq_zero.1 hstays, fun _ => hmember⟩

/-- A section keeps what was told of a peer in order, if changes of the peer have it to
themselves. -/
theorem move {errand : Errand} {next : Option Errand}
    (hordered : ledger.Ordered id (coming + (errand.announces id).toNat)
      (delivering + (errand.delivers id).toNat))
    (haccounted : ledger.Accounted id (coming + (errand.announces id).toNat)
      (going + (errand.parts id).toNat))
    (hpatient : Patient (coming + (errand.announces id).toNat) (going + (errand.parts id).toNat)
      (delivering + (errand.delivers id).toNat))
    (hafter : Patient (coming + (next.any (·.announces id)).toNat)
      (going + (next.any (·.parts id)).toNat) (delivering + (next.any (·.delivers id)).toNat))
    (hmove : errand.Move ledger next after) :
    after.Ordered id (coming + (next.any (·.announces id)).toNat)
      (delivering + (next.any (·.delivers id)).toNat) := by
  cases hmove with
  | @joined link card now hadmits =>
      refine ⟨hordered.told, fun hwaiting => ?_⟩
      rw [present_enlist]
      change 0 < coming + (decide (card.id = id)).toNat + delivering at hwaiting
      have hmember : 0 < coming + delivering → 0 < ledger.present id := hordered.member
      omega
  | @announced card =>
      by_cases hid : card.id = id
      · subst hid
        simp only [Errand.announces, decide_true, Bool.toNat_true] at hordered haccounted hpatient
        exact hordered.announce haccounted hpatient card.endpoint
      · simp only [Errand.announces, hid, decide_false, Bool.toNat_false] at hordered
        exact hordered.tell_other hid
  | @taken peer goodbye forget hmember =>
      refine ⟨hordered.told, fun hwaiting => ?_⟩
      have honly : ledger.present id ≤ 1 := by
        have hbalance := haccounted.balance
        have honce := haccounted.once
        omega
      have hpresent := present_unlist hmember honly
      by_cases hid : peer.card.id = id
      · -- whoever leaves has nothing else under way
        have halone : Patient coming (going + (decide (peer.card.id = id)).toNat) delivering := hafter
        rw [decide_eq_true hid, Bool.toNat_true] at halone
        have := halone (by omega)
        change 0 < coming + delivering at hwaiting
        omega
      · rw [decide_eq_false hid] at hpresent
        exact (show (ledger.unlist peer.card.id).present id = _ from hpresent) ▸
          hordered.member hwaiting
  | @parted card =>
      by_cases hid : card.id = id
      · subst hid
        simp only [Errand.parts, decide_true, Bool.toNat_true] at haccounted hpatient
        exact hordered.part haccounted hpatient card.endpoint
      · exact hordered.tell_other hid
  | @heard card message hmember =>
      refine ⟨hordered.told, fun hwaiting => ?_⟩
      change 0 < coming + (delivering + (decide (card.id = id)).toNat) at hwaiting
      by_cases hid : card.id = id
      · exact List.countP_pos_iff.2 ⟨card, hmember, decide_eq_true hid⟩
      · rw [decide_eq_false hid] at hwaiting
        exact hordered.member hwaiting
  | @delivered card message =>
      by_cases hid : card.id = id
      · subst hid
        simp only [Errand.delivers, decide_true, Bool.toNat_true] at hordered hpatient
        exact hordered.deliver haccounted hpatient card.endpoint message
      · simp only [Errand.delivers, hid, decide_false, Bool.toNat_false] at hordered
        exact hordered.tell_other hid
  | @dismissed peer goodbye forget => cases forget <;> exact hordered
  | nothing hbegins =>
      rw [hbegins.announces, hbegins.delivers] at hordered
      exact hordered
  | unstarted | recorded | struck | leaving => exact hordered.aside rfl rfl

end Ordered

end Ledger

namespace MembershipThreads

/-- How many errands are to tell that a peer has joined. -/
def coming (threads : MembershipThreads) (id : Nat) : Nat :=
  threads.errands.countP (·.announces id)

/-- How many errands are to tell that a peer has left. -/
def going (threads : MembershipThreads) (id : Nat) : Nat :=
  threads.errands.countP (·.parts id)

/-- How many messages of a peer are to be passed on. -/
def delivering (threads : MembershipThreads) (id : Nat) : Nat :=
  threads.errands.countP (·.delivers id)

/-- While it is still to be told that a peer joined or left, nothing else about it is under way. -/
def Patient (id : Nat) (threads : MembershipThreads) : Prop :=
  Ledger.Patient (threads.coming id) (threads.going id) (threads.delivering id)

instance (id : Nat) (threads : MembershipThreads) : Decidable (threads.Patient id) :=
  inferInstanceAs (Decidable (Ledger.Patient _ _ _))

def Accounted (threads : MembershipThreads) (id : Nat) : Prop :=
  threads.ledger.Accounted id (threads.coming id) (threads.going id)

def Ordered (threads : MembershipThreads) (id : Nat) : Prop :=
  threads.ledger.Ordered id (threads.coming id) (threads.delivering id)

variable {policy : PoolPolicy} {localKey : Bytes} {store : Option PeerStore} {net : Net}
  {Fits : MembershipThreads → Prop} {threads after : MembershipThreads} {id : Nat}

theorem countP_next (p : Errand → Bool) (next : Option Errand) (others : List Errand) :
    (next.toList ++ others).countP p = others.countP p + (next.any p).toNat := by
  cases next with
  | none => rfl
  | some errand =>
      rw [Option.toList_some, List.singleton_append, List.countP_cons, Option.any_some]
      cases p errand <;> rfl

/-- In a step some errands begin of which nothing is done, or one errand goes on. -/
theorem Step.counts (hstep : threads.Step after) (htidy : threads.ledger.Tidy) (id : Nat) :
    (after.ledger = threads.ledger ∧ after.coming id = threads.coming id ∧
      after.going id = threads.going id ∧ after.delivering id = threads.delivering id) ∨
    ∃ (errand : Errand) (next : Option Errand) (coming going delivering : Nat),
      errand.Move threads.ledger next after.ledger ∧
      threads.coming id = coming + (errand.announces id).toNat ∧
      threads.going id = going + (errand.parts id).toNat ∧
      threads.delivering id = delivering + (errand.delivers id).toNat ∧
      after.coming id = coming + (next.any (·.announces id)).toNat ∧
      after.going id = going + (next.any (·.parts id)).toNat ∧
      after.delivering id = delivering + (next.any (·.delivers id)).toNat := by
  rcases hstep.cases (Pool.tidy_iff.1 htidy) with ⟨hledger, -, asked, hasked, herrands⟩ |
    ⟨errand, next, others, hbefore, hafter, hmove, -⟩
  · have hsame {p : Errand → Bool} (hp : ∀ errand : Errand, errand.Begins → p errand = false) :
        after.errands.countP p = threads.errands.countP p := by
      have hnone : asked.countP p = 0 :=
        List.countP_eq_zero.2 fun errand hmem => by simp [hp errand (hasked errand hmem)]
      rw [herrands.countP_eq, List.countP_append, hnone, Nat.zero_add]
    exact Or.inl ⟨hledger, hsame fun _ => (·.announces), hsame fun _ => (·.parts),
      hsame fun _ => (·.delivers)⟩
  · have hcount (p : Errand → Bool) :
        threads.errands.countP p = others.countP p + (p errand).toNat :=
      (hbefore.countP_eq p).trans (countP_next p (some errand) others)
    have hnext (p : Errand → Bool) :
        after.errands.countP p = others.countP p + (next.any p).toNat :=
      (hafter.countP_eq p).trans (countP_next p next others)
    exact Or.inr ⟨errand, next, _, _, _, hmove, hcount _, hcount _, hcount _, hnext _, hnext _,
      hnext _⟩

theorem Step.accounted (hstep : threads.Step after) (htidy : threads.ledger.Tidy)
    (haccounted : threads.Accounted id) : after.Accounted id := by
  rw [Accounted] at haccounted ⊢
  rcases hstep.counts htidy id with ⟨hledger, hcoming, hgoing, -⟩ |
    ⟨errand, next, coming, going, -, hmove, hcoming, hgoing, -, hcoming', hgoing', -⟩
  · rw [hledger, hcoming, hgoing]
    exact haccounted
  · rw [hcoming, hgoing] at haccounted
    rw [hcoming', hgoing']
    exact haccounted.move hmove

theorem Step.ordered (hstep : threads.Step after) (htidy : threads.ledger.Tidy)
    (haccounted : threads.Accounted id) (hpatient : threads.Patient id) (hafter : after.Patient id)
    (hordered : threads.Ordered id) : after.Ordered id := by
  rw [Accounted] at haccounted
  rw [Patient] at hpatient hafter
  rw [Ordered] at hordered ⊢
  rcases hstep.counts htidy id with ⟨hledger, hcoming, -, hdelivering⟩ |
    ⟨errand, next, coming, going, delivering, hmove, hcoming, hgoing, hdelivering, hcoming', hgoing',
      hdelivering'⟩
  · rw [hledger, hcoming, hdelivering]
    exact hordered
  · rw [hcoming, hgoing] at haccounted
    rw [hcoming, hdelivering] at hordered
    rw [hcoming, hgoing, hdelivering] at hpatient
    rw [hcoming', hgoing', hdelivering'] at hafter
    rw [hcoming', hdelivering']
    exact hordered.move haccounted hpatient hafter hmove

/-- Whatever threads come and go, whoever has joined is a member or has left, and the application
was told of it once or is to be told. -/
theorem accounted_of_run (hrun : Run Fits (start policy localKey store net) threads) (id : Nat) :
    threads.Accounted id := by
  induction hrun with
  | rest => exact ⟨rfl, Nat.zero_le 1, fun _ => rfl⟩
  | step hrun hstep _ ih =>
      exact hstep.accounted (hrun.tidy (tidy_start policy localKey store net)) ih

theorem ordered_of_run (hrun : Run (Patient id) (start policy localKey store net) threads) :
    threads.Patient id ∧ threads.Ordered id := by
  induction hrun with
  | rest => exact ⟨nofun, inOrder_nil id, nofun⟩
  | step hrun hstep hpatient ih =>
      have htidy := hrun.tidy (tidy_start policy localKey store net)
      exact ⟨hpatient, hstep.ordered htidy (accounted_of_run hrun id) ih.1 hpatient ih.2⟩

/-- **The application is told that a peer has joined, then of its messages, and then that it has
left**, if nothing else about the peer is under way while it is still to be told that the peer joined
or left.  Of every peer it is told once at most that it joined, and once at most that it left. -/
theorem announced_of_run (hrun : Run (Patient id) (start policy localKey store net) threads) :
    InOrder id threads.ledger.told ∧ threads.ledger.joins.count id ≤ 1 ∧
      threads.ledger.leaves.count id ≤ 1 := by
  obtain ⟨hbalance, honce, -⟩ := accounted_of_run hrun id
  exact ⟨(ordered_of_run hrun).2.told, by omega, by omega⟩

def remark : Message :=
  ⟨9, .ofBytes [7]⟩

/-- A node joins and says two things, which two threads pass on while another node joins.  Then the
first one is removed. -/
def conversing : List Turn :=
  [.ask (.join Life.inboundLink), .go 0, .go 0, .go 0, .ask (.hear 1 remark), .ask (.hear 1 remark),
    .ask (.join otherLink), .go 0, .go 1, .go 2, .go 0, .go 1, .go 0, .ask (.expel 1 true true),
    .go 1, .go 1, .go 1, .go 1, .go 0]

theorem announced_of_run_conversing :
    ∃ threads, Run (Patient 1) (start {} [0] (some {}) {}) threads ∧
      threads.ledger.told = [.joined 1 ⟨"b", 7000⟩, .message 1 ⟨"b", 7000⟩ remark,
        .message 1 ⟨"b", 7000⟩ remark, .left 1 ⟨"b", 7000⟩, .joined 2 ⟨"c", 7000⟩] ∧
      InOrder 1 threads.ledger.told ∧ threads.ledger.joins.count 1 ≤ 1 ∧
      threads.ledger.leaves.count 1 ≤ 1 := by
  have hrun : Run (Patient 1) (start {} [0] (some {}) {})
      ((start {} [0] (some {}) {}).play conversing) :=
    run_play (by simp [conversing, Turn.Begins, Errand.Begins]) (by decide)
  exact ⟨_, hrun, rfl, announced_of_run hrun⟩

/-! ## Sections that overtake each other -/

/-- A node joins and says something, and this is told before it is told that the node has joined. -/
def hasty : List Turn :=
  [.ask (.join Life.inboundLink), .go 0, .ask (.hear 1 remark), .go 1, .go 1, .go 0, .go 0]

/-- A node says something and is removed, and this is told before what it said. -/
def belated : List Turn :=
  [.ask (.join Life.inboundLink), .go 0, .go 0, .go 0, .ask (.hear 1 remark), .go 0,
    .ask (.expel 1 false true), .go 1, .go 1, .go 1, .go 1, .go 0]

/-- **Threads that come and go as they will tell the application things out of order**: what a peer
said before it was told that the peer has joined, or after it was told that the peer has left. -/
theorem told_out_of_order :
    (∃ threads, Run (fun _ => True) (start {} [0] (some {}) {}) threads ∧
      threads.ledger.told = [.message 1 ⟨"b", 7000⟩ remark, .joined 1 ⟨"b", 7000⟩] ∧
      ¬ InOrder 1 threads.ledger.told) ∧
    ∃ threads, Run (fun _ => True) (start {} [0] (some {}) {}) threads ∧
      threads.ledger.told =
        [.joined 1 ⟨"b", 7000⟩, .left 1 ⟨"b", 7000⟩, .message 1 ⟨"b", 7000⟩ remark] ∧
      ¬ InOrder 1 threads.ledger.told := by
  refine ⟨⟨_, run_play_any hasty ?_, rfl, fun horder => ?_⟩,
    ⟨_, run_play_any belated ?_, rfl, fun horder => ?_⟩⟩
  · simp [hasty, Turn.Begins, Errand.Begins]
  · exact absurd ((horder [] _ _ rfl rfl).1 rfl) (by simp)
  · simp [belated, Turn.Begins, Errand.Begins]
  · exact (horder [.joined 1 ⟨"b", 7000⟩, .left 1 ⟨"b", 7000⟩] _ [] rfl rfl).2
      (by simp [PoolEvent.left?])

end MembershipThreads

end Overlay
