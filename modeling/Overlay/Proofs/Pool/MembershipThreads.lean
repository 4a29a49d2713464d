import Mathlib.Data.List.Induction
import Overlay.Proofs.Peer.Lifecycle
import Overlay.Proofs.Pool.Errands

/-!
# Any number of threads about errands on a pool

A `MembershipThreads` is a pool with any number of threads that are about
errands, and take their sections in any order.  Errands of one kind or another
may begin at any time, and what the ledger does not show may change at any time.
A run may be held to a rule that every state of it fits.
-/

namespace Overlay

open Wire

/-! ## Members that are in order -/

/-- The members of a ledger are in order, whatever the application and the store know. -/
structure Ledger.Tidy (ledger : Ledger) : Prop where
  apart : ledger.members.Pairwise Peer.Card.Apart
  drawn : ∀ card ∈ ledger.members, card.id < ledger.nextId
  foreign : ∀ card ∈ ledger.members, card.identity.publicKey ≠ ledger.localKey

theorem Pool.tidy_iff {pool : Pool} : pool.ledger.Tidy ↔ pool.Orderly :=
  ⟨fun htidy => ⟨htidy.apart, htidy.drawn, htidy.foreign⟩,
    fun horderly => ⟨horderly.apart, horderly.drawn, horderly.foreign⟩⟩

namespace Ledger.Tidy

variable {ledger after : Ledger}

/-- Members of one id are one member. -/
theorem eq_of_id (htidy : ledger.Tidy) {first second : Peer.Card}
    (hfirst : first ∈ ledger.members) (hsecond : second ∈ ledger.members)
    (hid : first.id = second.id) : first = second := by
  have hids := htidy.apart.map (·.id) fun _ _ => Peer.Card.Apart.id
  exact List.inj_on_of_nodup_map (hids.imp Nat.ne_of_lt) hfirst hsecond hid

/-- Members at one endpoint are one member. -/
theorem eq_of_endpoint (htidy : ledger.Tidy) {first second : Peer.Card}
    (hfirst : first ∈ ledger.members) (hsecond : second ∈ ledger.members)
    (hendpoint : first.endpoint = second.endpoint) : first = second :=
  List.inj_on_of_nodup_map (htidy.apart.map (·.endpoint) fun _ _ => Peer.Card.Apart.endpoint)
    hfirst hsecond hendpoint

theorem enlist (htidy : ledger.Tidy) {card : Peer.Card} {now : Int64}
    (hadmits : ledger.Admits (.join card now)) :
    (ledger.enlist card).Tidy := by
  obtain ⟨hnext, hself, hnew⟩ := hadmits
  refine ⟨List.pairwise_append.2 ⟨htidy.apart, List.pairwise_singleton .., ?_⟩, ?_, ?_⟩
  · intro other hother joined hjoined
    obtain rfl := List.mem_singleton.1 hjoined
    exact ⟨hnext ▸ htidy.drawn other hother, (hnew other hother).1, (hnew other hother).2⟩
  · intro other hother
    rcases List.mem_append.1 hother with hbefore | hjoined
    · exact Nat.lt_succ_of_lt (htidy.drawn other hbefore)
    · rw [List.mem_singleton.1 hjoined, hnext]
      exact Nat.lt_succ_self _
  · intro other hother
    rcases List.mem_append.1 hother with hbefore | hjoined
    · exact htidy.foreign other hbefore
    · rw [List.mem_singleton.1 hjoined]
      exact hself

/-- Sections of errands keep the members in order. -/
theorem move (htidy : ledger.Tidy) {errand : Errand} {next : Option Errand}
    (hmove : Errand.Move ledger errand next after) : after.Tidy := by
  cases hmove with
  | joined now hadmits => exact htidy.enlist hadmits
  | unstarted =>
      exact ⟨htidy.apart, fun card hcard => Nat.lt_succ_of_lt (htidy.drawn card hcard),
        htidy.foreign⟩
  | taken hmember =>
      exact ⟨htidy.apart.filter _, fun card hcard => htidy.drawn card (List.mem_of_mem_filter hcard),
        fun card hcard => htidy.foreign card (List.mem_of_mem_filter hcard)⟩
  | recorded | announced | struck | parted | delivered =>
      exact ⟨htidy.apart, htidy.drawn, htidy.foreign⟩
  | dismissed | heard | leaving | nothing => exact htidy

end Ledger.Tidy

/-! ## States and steps -/

/-- A pool, and the errands that threads are about. -/
structure MembershipThreads where
  world : World
  errands : List Errand := []
  /-- The endpoints whose last member was to be forgotten when it was taken out of the list. -/
  forgotten : List Endpoint := []

/-- What happens next: a thread begins, or the one at a place goes through its next section. -/
inductive Turn
  | ask (errand : Errand)
  | go (place : Nat)

def Turn.Begins : Turn → Prop
  | .ask errand => errand.Begins
  | .go _ => True

namespace MembershipThreads

/-- Nobody has joined.  The store may know endpoints from before. -/
def start (policy : PoolPolicy) (localKey : Bytes) (store : Option PeerStore) (net : Net) :
    MembershipThreads where
  world := { pool := Pool.empty policy localKey store, net }

def ledger (threads : MembershipThreads) : Ledger :=
  threads.world.pool.ledger

/-- Whose last member was to be forgotten, when an errand has come so far.  Whoever is in the list
again is not. -/
def noted (forgotten : List Endpoint) : Option Errand → List Endpoint
  | some (.record card) => forgotten.filter (· ≠ card.endpoint)
  | some (.dismiss peer _ true) => peer.endpoint :: forgotten
  | _ => forgotten

/-- A thread goes through the next section of its errand. -/
def advance (threads : MembershipThreads) (before : List Errand) (errand : Errand)
    (behind : List Errand) : MembershipThreads where
  world := (errand.perform threads.world).2
  errands := before ++ (errand.perform threads.world).1.toList ++ behind
  forgotten := noted threads.forgotten (errand.perform threads.world).1

inductive Step (threads : MembershipThreads) : MembershipThreads → Prop
  | ask {errand : Errand} (hbegins : errand.Begins) :
      Step threads { threads with errands := threads.errands ++ [errand] }
  | go {before behind : List Errand} {errand : Errand}
      (herrands : threads.errands = before ++ errand :: behind) :
      Step threads (threads.advance before errand behind)
  -- no peer can be started on the link.  The id was drawn before
  | unstarted {before behind : List Errand} {link : Link}
      (herrands : threads.errands = before ++ .join link :: behind) {id : Nat}
      (hadded : (threads.world.addPeer link).1 = .ok (.added id)) :
      Step threads { threads with
        world := threads.world.withPool fun pool => { pool with nextId := pool.nextId + 1 }
        errands := before ++ behind }
  -- no session can be opened on the link
  | unopened {before behind : List Errand} {link : Link}
      (herrands : threads.errands = before ++ .join link :: behind) {id : Nat}
      (hresumed : (threads.world.addPeer link).1 = .ok (.resumed id)) :
      Step threads { threads with errands := before ++ behind }
  -- something changes that the ledger does not show
  | meanwhile {after : World} (hledger : after.pool.ledger = threads.ledger) :
      Step threads { threads with world := after }

/-- Some steps, after each of which the state fits a rule. -/
inductive Run (Fits : MembershipThreads → Prop) (first : MembershipThreads) :
    MembershipThreads → Prop
  | rest : Run Fits first first
  | step {threads after : MembershipThreads} (hrun : Run Fits first threads)
      (hstep : threads.Step after) (hfits : Fits after) : Run Fits first after

variable {Fits : MembershipThreads → Prop} {first threads after : MembershipThreads}

/-- In a step some errands begin, or one errand goes on and the others wait. -/
theorem Step.cases (hstep : threads.Step after) (horderly : threads.world.pool.Orderly) :
    (after.ledger = threads.ledger ∧ after.forgotten = threads.forgotten ∧
      ∃ asked : List Errand, (∀ errand ∈ asked, errand.Begins) ∧
        after.errands.Perm (asked ++ threads.errands)) ∨
    ∃ errand next others, threads.errands.Perm (errand :: others) ∧
      after.errands.Perm (next.toList ++ others) ∧
      errand.Move threads.ledger next after.ledger ∧
      after.forgotten = noted threads.forgotten next := by
  cases hstep with
  | @ask errand hbegins =>
      exact Or.inl ⟨rfl, rfl, [errand], by simpa using hbegins, List.perm_append_comm⟩
  | @go before behind errand herrands =>
      refine Or.inr ⟨errand, (errand.perform threads.world).1, before ++ behind, ?_, ?_,
        Errand.move_perform horderly errand, rfl⟩
      · rw [herrands]
        exact List.perm_middle
      · rw [advance, ← List.append_assoc]
        exact List.perm_append_comm.append_right behind
  | @unstarted before behind link herrands id hadded =>
      refine Or.inr ⟨.join link, none, before ++ behind, ?_, .refl _, .unstarted, rfl⟩
      rw [herrands]
      exact List.perm_middle
  | @unopened before behind link herrands id hresumed =>
      refine Or.inr ⟨.join link, none, before ++ behind, ?_, .refl _, .nothing trivial, rfl⟩
      rw [herrands]
      exact List.perm_middle
  | meanwhile hledger => exact Or.inl ⟨hledger, rfl, [], by simp, .refl _⟩

theorem Step.tidy (hstep : threads.Step after) (htidy : threads.ledger.Tidy) : after.ledger.Tidy := by
  rcases hstep.cases (Pool.tidy_iff.1 htidy) with ⟨hledger, -⟩ | ⟨_, _, _, -, -, hmove, -⟩
  · rw [hledger]
    exact htidy
  · exact htidy.move hmove

theorem tidy_start (policy : PoolPolicy) (localKey : Bytes) (store : Option PeerStore) (net : Net) :
    (start policy localKey store net).ledger.Tidy :=
  Pool.tidy_iff.2 (Pool.orderly_empty policy localKey store)

theorem Run.tidy (hrun : Run Fits first threads) (hfirst : first.ledger.Tidy) :
    threads.ledger.Tidy := by
  induction hrun with
  | rest => exact hfirst
  | step _ hstep _ ih => exact hstep.tidy ih

/-! ## Schedules -/

/-- A turn that is taken.  If nobody is at a place, nothing happens. -/
def turn (threads : MembershipThreads) : Turn → MembershipThreads
  | .ask errand => { threads with errands := threads.errands ++ [errand] }
  | .go place =>
    match threads.errands[place]? with
    | none => threads
    | some errand =>
      threads.advance (threads.errands.take place) errand (threads.errands.drop (place + 1))

def play (threads : MembershipThreads) (turns : List Turn) : MembershipThreads :=
  turns.foldl turn threads

theorem step_turn {turn : Turn} (hbegins : turn.Begins) : threads.Step (threads.turn turn) := by
  cases turn with
  | ask errand => exact .ask hbegins
  | go place =>
      rw [MembershipThreads.turn]
      split
      · exact .meanwhile rfl
      · next errand hplace =>
          obtain ⟨hlt, rfl⟩ := List.getElem?_eq_some_iff.1 hplace
          refine .go ?_
          rw [List.getElem_cons_drop, List.take_append_drop]

/-- A schedule is a run, if every state of it fits the rule. -/
theorem run_play {turns : List Turn} (hbegins : ∀ turn ∈ turns, turn.Begins)
    (hfits : ∀ n ≤ turns.length, Fits (first.play (turns.take n))) :
    Run Fits first (first.play turns) := by
  induction turns using List.reverseRecOn with
  | nil => exact .rest
  | append_singleton turns last ih =>
      have hlast : first.play (turns ++ [last]) = (first.play turns).turn last :=
        List.foldl_concat ..
      rw [hlast]
      refine .step (ih (fun turn hturn => hbegins turn ?_) fun n hn => ?_)
        (step_turn (hbegins last (by simp))) ?_
      · exact List.mem_append_left _ hturn
      · rw [← List.take_append_of_le_length hn]
        exact hfits n (by simp; omega)
      · rw [← hlast, ← List.take_of_length_le (Nat.le_refl (turns ++ [last]).length)]
        exact hfits _ (Nat.le_refl _)

theorem run_play_any (turns : List Turn) (hbegins : ∀ turn ∈ turns, turn.Begins) :
    Run (fun _ => True) first (first.play turns) :=
  run_play hbegins fun _ _ => trivial

/-- The peer of a node at another endpoint. -/
def otherLink : Link :=
  { Life.inboundLink with
    line := 1
    identity := ⟨[2], 7000, protocolVersion⟩
    endpoint := ⟨"c", 7000⟩ }

end MembershipThreads

end Overlay
