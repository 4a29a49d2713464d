import Mathlib.Logic.Function.Basic
import Overlay.Node.Basic
import Overlay.Proofs.Peer.Lifecycle
import Overlay.Proofs.Pool.Ledger
import Overlay.Proofs.Pool.Sections

/-!
# How a node stops

A node that stops sets a mark, tells its timer, lists its members and takes them
out one after the other, and then waits for its threads.  Some of these only look
at the mark between two rounds, and nobody waits for the threads that answer
callers or work through lists of peers.  So a node may have stopped and still
have a member, or get one later (`Closing.outlived`).  All its members joined
after it had listed those whom it takes out, and if no thread is at work at that
point, it has none from then on (`Closing.late_or_none`).
-/

namespace Overlay

open Wire

/-! ## What the threads of a node do -/

namespace Procedure

variable {α β : Type} {world after : World} {known : List Link} {rest owed : List Nat}

/-- Meets somebody who has dialed in.  The meeting ends as it will, and if the caller is let in, the
link is offered. -/
def welcome (e : Endpoint) : Procedure Unit := do
  match ← reach e with
  | .error _ => return ()
  | .ok link =>
    match (← look).pool.authenticate link.identity link.endpoint with
    | .error _ => return ()
    | .ok () => .offer link fun _ => .done ()

/-- Dials endpoints one after the other. -/
def dialAll : List Endpoint → Procedure Unit
  | [] => return ()
  | e :: rest => do
    let _ ← connect e
    dialAll rest

/-- Does something, whatever comes of it. -/
def quietly (call : Procedure α) : Procedure Unit := do
  let _ ← call
  return ()

theorem run_dialAll (endpoints : List Endpoint) :
    run World.dial (dialAll endpoints) world = ((), Node.dialAll world endpoints) := by
  induction endpoints generalizing world with
  | nil => rfl
  | cons e rest ih =>
      rw [dialAll, run_bind, run_connect, ih]
      rfl

/-- The sections of a call spare the members of an orderly pool, and it offers links only that are
known to it. -/
def Spares (call : Procedure α) : Prop :=
  ∃ known, call.Keeps (fun _ => True) known

theorem spares_quietly {call : Procedure α} {Ends : α → Prop} (hkeeps : call.Keeps Ends known) :
    call.quietly.Spares :=
  ⟨known, keeps_bind hkeeps fun _ _ _ _ => trivial⟩

theorem keeps_welcome (e : Endpoint) : (welcome e).Keeps (fun _ => True) known := by
  refine ⟨fun cause => trivial, fun link world _ => ⟨World.spares_of_eq rfl rfl rfl, ?_⟩⟩
  show Keeps _ (match world.pool.authenticate link.identity link.endpoint with
    | .error _ => .done ()
    | .ok () => .offer link fun _ => .done ()) _
  split
  · exact trivial
  · exact ⟨List.mem_cons_self, fun _ => trivial⟩

theorem keeps_dialAll (endpoints : List Endpoint) :
    (dialAll endpoints).Keeps (fun _ => True) known := by
  induction endpoints generalizing known with
  | nil => exact trivial
  | cons e rest ih => exact keeps_bind (keeps_connect e) fun _ _ _ _ => ih

end Procedure

/-! ## Sections that let members join -/

namespace World

variable {world after : World}

/-- A section after which the pool is orderly, and whoever is new in it has a new id. -/
structure Grows (world after : World) : Prop where
  orderly : after.pool.Orderly
  nextId : world.pool.nextId ≤ after.pool.nextId
  members : ∀ card ∈ after.pool.roster, card ∈ world.pool.roster ∨ world.pool.nextId ≤ card.id

theorem Spares.grows (hspares : world.Spares after) (horderly : world.pool.Orderly) :
    world.Grows after where
  orderly := hspares.orderly horderly
  nextId := Nat.le_of_eq hspares.nextId.symm
  members _ hcard := Or.inl (hspares.roster.subset hcard)

/-- What leaves the list of the members as it is. -/
theorem grows_of_roster (horderly : world.pool.Orderly)
    (hroster : after.pool.roster = world.pool.roster)
    (hnext : after.pool.nextId = world.pool.nextId)
    (hkey : after.pool.localKey = world.pool.localKey) : world.Grows after where
  orderly := horderly.sublist (hroster ▸ List.Sublist.refl _) hnext hkey
  nextId := Nat.le_of_eq hnext.symm
  members _ hcard := Or.inl (hroster ▸ hcard)

theorem grows_addPeer (horderly : world.pool.Orderly) (link : Link) :
    world.Grows (world.addPeer link).2 := by
  rcases roster_addPeer horderly link with ⟨-, -, -, hadded⟩ | ⟨hroster, hnext, hkey⟩
  · refine ⟨orderly_addPeer horderly link, ?_, fun card hcard => ?_⟩
    · rw [hadded]
      exact Nat.le_succ _
    · rw [hadded, Pool.roster_enroll, List.mem_append, List.mem_singleton] at hcard
      rcases hcard with hbefore | rfl
      · exact Or.inl hbefore
      · exact Or.inr (Nat.le_refl _)
  · exact grows_of_roster horderly hroster hnext hkey

end World

namespace Procedure

variable {α β : Type} {world after : World} {rest mid owed : List Nat}

/-- A section of a call that spares the members. -/
theorem Spares.step {call next : Procedure α} (hspares : call.Spares)
    (horderly : world.pool.Orderly) (hsection : call.Section world next after) :
    world.Grows after ∧ next.Spares := by
  obtain ⟨known, hkeeps⟩ := hspares
  cases hsection with
  | act =>
      obtain ⟨hspares, hnext⟩ := hkeeps world horderly
      exact ⟨hspares.grows horderly, known, hnext⟩
  | offer => exact ⟨World.grows_addPeer horderly _, known, hkeeps.2 _⟩
  | unstarted hadded cause =>
      exact ⟨⟨horderly.skip, Nat.le_succ _, fun card hcard => Or.inl hcard⟩, known, hkeeps.2 _⟩
  | unopened hresumed cause =>
      exact ⟨World.grows_of_roster horderly rfl rfl rfl, known, hkeeps.2 _⟩
  | dial outcome =>
      refine ⟨World.grows_of_roster horderly rfl rfl rfl, ?_⟩
      cases outcome with
      | error cause => exact ⟨known, hkeeps.1 cause⟩
      | ok link => exact ⟨link :: known, hkeeps.2 link⟩

/-! ## Calls that take members out -/

/-- Whatever comes in between, a call takes out the members of some ids, those of other ids
excepted.  It offers no link, and passes no list of peers on. -/
def Expels (rest : List Nat) : List Nat → Procedure α → Prop
  | owed, .done _ => owed ⊆ rest
  | owed, .act f next => ∀ world : World, world.pool.Orderly →
      (f world).pool.exchanges = world.pool.exchanges ∧
        ∃ left, (∀ card ∈ (f world).pool.roster, card.id ∈ owed → card.id ∈ left) ∧
          (next world).Expels rest left
  | _, .offer _ _ => False
  | _, .dial _ _ => False

theorem Expels.mono {call : Procedure α} (hexpels : call.Expels rest mid) (howed : owed ⊆ mid) :
    call.Expels rest owed := by
  cases call with
  | done result => exact List.Subset.trans howed hexpels
  | act f next =>
      intro world horderly
      obtain ⟨hexchanges, left, hleft, hnext⟩ := hexpels world horderly
      exact ⟨hexchanges, left, fun card hcard hid => hleft card hcard (howed hid), hnext⟩
  | offer link next => exact hexpels
  | dial e next => exact hexpels

theorem expels_bind {call : Procedure α} {next : α → Procedure β} (hcall : call.Expels mid owed)
    (hnext : ∀ result, (next result).Expels rest mid) : (call >>= next).Expels rest owed := by
  show (call.bind next).Expels rest owed
  induction call generalizing owed with
  | done result => exact (hnext result).mono hcall
  | act f _ ih =>
      intro world horderly
      obtain ⟨hexchanges, left, hleft, hrest⟩ := hcall world horderly
      exact ⟨hexchanges, left, hleft, ih world hrest⟩
  | offer link _ ih => exact hcall
  | dial e _ ih => exact hcall

theorem Expels.step {call next : Procedure α} (hexpels : call.Expels rest owed)
    (horderly : world.pool.Orderly) (hsection : call.Section world next after) :
    after.pool.exchanges = world.pool.exchanges ∧
      ∃ left, (∀ card ∈ after.pool.roster, card.id ∈ owed → card.id ∈ left) ∧
        next.Expels rest left := by
  cases hsection with
  | act => exact hexpels world horderly
  | offer | unstarted | unopened | dial => exact hexpels.elim

/-- Nobody joins through a call that takes members out. -/
theorem Expels.spares {call next : Procedure α} (hexpels : call.Expels rest owed)
    (hspares : call.Spares) (horderly : world.pool.Orderly)
    (hsection : call.Section world next after) : world.Spares after := by
  obtain ⟨known, hkeeps⟩ := hspares
  cases hsection with
  | act => exact (hkeeps world horderly).1
  | offer | unstarted | unopened | dial => exact hexpels.elim

/-- A section that may do anything to the members. -/
theorem expels_alter {f : Pool → Pool} (hkept : ∀ pool, (f pool).exchanges = pool.exchanges) :
    (alter f).Expels rest rest :=
  fun world _ => ⟨hkept world.pool, rest, fun _ _ hid => hid, List.Subset.refl rest⟩

theorem expels_onNet (f : Net → Net) : (onNet f).Expels rest rest :=
  fun _ _ => ⟨rfl, rest, fun _ _ hid => hid, List.Subset.refl rest⟩

theorem expels_take (id : Nat) : (take id).Expels rest (id :: rest) := by
  refine fun world horderly => ⟨rfl, rest, fun card hcard hid => ?_, List.Subset.refl rest⟩
  have hother : card ∈ world.pool.roster.filter (·.id ≠ id) :=
    (congrArg (card ∈ Ledger.members ·) (Pool.ledger_take horderly id)).mp hcard
  exact (List.mem_cons.1 hid).resolve_left (by simpa using (List.mem_filter.1 hother).2)

theorem expels_farewell (goodbye : Bool) (peer : Peer) :
    (farewell goodbye peer).Expels rest rest := by
  rw [farewell]
  split
  · exact fun _ _ => ⟨rfl, rest, fun _ _ hid => hid, List.Subset.refl rest⟩
  · exact List.Subset.refl rest

theorem expels_dismiss (peer : Peer) (forget : Bool) : (dismiss peer forget).Expels rest rest := by
  refine expels_bind (expels_onNet _) fun _ => expels_bind (expels_alter fun pool => ?_) fun _ =>
    expels_alter fun _ => rfl
  split <;> rfl

theorem expels_takePeer (id : Nat) (goodbye forget : Bool) :
    (takePeer id goodbye forget).Expels rest (id :: rest) := by
  refine expels_bind (expels_take id) fun taken => ?_
  cases taken with
  | none => exact List.Subset.refl rest
  | some peer =>
      exact expels_bind (expels_farewell goodbye peer) fun said =>
        expels_bind (expels_dismiss said forget) fun _ => List.Subset.refl rest

/-- To shut a pool down, its members are listed and then taken out. -/
theorem of_shutdown {next : Procedure Unit} (hsection : shutdown.Section world next after) :
    next = leaveAll (world.pool.members.map (·.id)) ∧ after = world := by
  change Section world (.act id fun world => leaveAll (world.pool.members.map (·.id))) next after
    at hsection
  cases hsection
  exact ⟨rfl, rfl⟩

theorem expels_leaveAll (ids : List Nat) : (leaveAll ids).Expels [] ids := by
  induction ids with
  | nil => exact List.Subset.refl []
  | cons id rest ih => exact expels_bind (expels_takePeer id true false) fun _ => ih

end Procedure

/-! ## A node that stops -/

/-- The threads for which a node waits when it stops. -/
inductive Role
  | listener
  | events
  | timer
  -- it dials the first peers
  | setup
  deriving DecidableEq

/-- Where a thread stands: before a round, in it, or at its end. -/
inductive Stand
  | looking
  | working (call : Procedure Unit)
  | ended

/-- How far a node has come in stopping. -/
inductive Halt
  | running
  -- the mark is set
  | marked
  -- the timer is told
  | released
  -- it takes out those who were members when the next id was `cut`
  | leaving (cut : Nat) (call : Procedure Unit)
  -- it waits for its threads
  | joining (cut : Nat)
  | stopped (cut : Nat)

/-- Whether a thread that looks goes on.  The timer waits until it is told, and the others look at the
mark. -/
def Role.goesOn : Role → Halt → Bool
  | .setup, _ => false
  | .timer, .marked => true
  | _, .running => true
  | _, _ => false

/-- What a thread does in a round of its own accord. -/
def Role.round : Role → Procedure Unit
  | .timer => Procedure.maintain.quietly
  | _ => .done ()

/-- A pool, the threads of its node, and how far the node has come in stopping. -/
structure Closing where
  world : World
  halt : Halt := .running
  threads : Role → Stand
  /-- What the threads that answer callers or work through lists of peers have still to do. -/
  loose : List (Procedure Unit) := []

namespace Closing

/-- A node that has just begun. -/
def start (policy : PoolPolicy) (localKey : Bytes) (store : Option PeerStore) (net : Net)
    (initial : List Endpoint) : Closing where
  world := { pool := .empty policy localKey store, net }
  threads
    | .setup => .working (Procedure.dialAll initial)
    | _ => .looking

def put (s : Closing) (role : Role) (stand : Stand) : Closing :=
  { s with threads := Function.update s.threads role stand }

inductive Step (s : Closing) : Closing → Prop
  | look {role : Role} (hlooking : s.threads role = .looking) (hon : role.goesOn s.halt = true) :
      Step s (s.put role (.working role.round))
  | quit {role : Role} (hlooking : s.threads role = .looking) (hon : role.goesOn s.halt = false) :
      Step s (s.put role .ended)
  | again {role : Role} (hdone : s.threads role = .working (.done ())) :
      Step s (s.put role .looking)
  | go {role : Role} {call next : Procedure Unit} {after : World}
      (hworking : s.threads role = .working call) (hsection : call.Section s.world next after) :
      Step s ({ s with world := after }.put role (.working next))
  -- somebody dials in, and is answered in a thread of its own
  | accept (hdone : s.threads .listener = .working (.done ())) (e : Endpoint) :
      Step s ({ s with loose := Procedure.welcome e :: s.loose }.put .listener .looking)
  -- a peer has told something
  | hear (hdone : s.threads .events = .working (.done ())) (event : PeerEvent) :
      Step s (s.put .events (.working (Procedure.handle event)))
  -- a list of peers is worked through in a thread of its own
  | exchange {list : List Endpoint} {lists : List (List Endpoint)}
      (hlists : s.world.pool.exchanges = list :: lists) :
      Step s { s with
        world := s.world.withPool ({ · with exchanges := lists })
        loose := (Procedure.receivePeers list).quietly :: s.loose }
  | goLoose {before behind : List (Procedure Unit)} {call next : Procedure Unit} {after : World}
      (hloose : s.loose = before ++ call :: behind) (hsection : call.Section s.world next after) :
      Step s { s with world := after, loose := before ++ next :: behind }
  | finish {before behind : List (Procedure Unit)}
      (hloose : s.loose = before ++ .done () :: behind) :
      Step s { s with loose := before ++ behind }
  | mark (hhalt : s.halt = .running) : Step s { s with halt := .marked }
  | release (hhalt : s.halt = .marked) : Step s { s with halt := .released }
  -- the members are listed
  | list {next : Procedure Unit} {after : World} (hhalt : s.halt = .released)
      (hsection : Procedure.shutdown.Section s.world next after) :
      Step s { s with world := after, halt := .leaving s.world.pool.nextId next }
  | leave {cut : Nat} {call next : Procedure Unit} {after : World}
      (hhalt : s.halt = .leaving cut call) (hsection : call.Section s.world next after) :
      Step s { s with world := after, halt := .leaving cut next }
  | left {cut : Nat} (hhalt : s.halt = .leaving cut (.done ())) :
      Step s { s with halt := .joining cut }
  | joined {cut : Nat} (hhalt : s.halt = .joining cut) (hended : ∀ role, s.threads role = .ended) :
      Step s { s with halt := .stopped cut }
  -- supervisors and others change what does not show in the list of the members
  | meanwhile {after : World} (hroster : after.pool.roster = s.world.pool.roster)
      (hnext : after.pool.nextId = s.world.pool.nextId)
      (hkey : after.pool.localKey = s.world.pool.localKey)
      (hexchanges : after.pool.exchanges = s.world.pool.exchanges) :
      Step s { s with world := after }

inductive Run (first : Closing) : Closing → Prop
  | rest : Run first first
  | step {s after : Closing} (hrun : Run first s) (hstep : s.Step after) : Run first after

end Closing

/-! ## What holds of the members -/

/-- What holds of the members of a pool when its node has come so far in stopping. -/
def Halt.Fits (pool : Pool) : Halt → Prop
  | .leaving cut call => cut ≤ pool.nextId ∧ call.Spares ∧ ∃ owed, call.Expels [] owed ∧
      ∀ card ∈ pool.roster, card.id < cut → card.id ∈ owed
  | .joining cut => cut ≤ pool.nextId ∧ ∀ card ∈ pool.roster, cut ≤ card.id
  | .stopped cut => cut ≤ pool.nextId ∧ ∀ card ∈ pool.roster, cut ≤ card.id
  | _ => True

/-- The members were listed, if at all, when no id below a given one was left. -/
def Halt.Since (nextId : Nat) : Halt → Prop
  | .leaving cut _ => nextId ≤ cut
  | .joining cut => nextId ≤ cut
  | .stopped cut => nextId ≤ cut
  | _ => True

/-- Those who join while a node stops are new. -/
theorem Halt.Fits.grow {world after : World} {halt : Halt} (hfits : halt.Fits world.pool)
    (hgrows : world.Grows after) : halt.Fits after.pool := by
  have hlate {cut : Nat} (hcut : cut ≤ world.pool.nextId) {card : Peer.Card}
      (hcard : card ∈ after.pool.roster) : card ∈ world.pool.roster ∨ cut ≤ card.id :=
    (hgrows.members card hcard).imp_right (Nat.le_trans hcut)
  cases halt with
  | leaving cut call =>
      obtain ⟨hcut, hspares, owed, hexpels, howed⟩ := hfits
      refine ⟨Nat.le_trans hcut hgrows.nextId, hspares, owed, hexpels, fun card hcard hid => ?_⟩
      exact howed card ((hlate hcut hcard).resolve_right (Nat.not_le.2 hid)) hid
  | joining cut | stopped cut =>
      obtain ⟨hcut, hmembers⟩ := hfits
      refine ⟨Nat.le_trans hcut hgrows.nextId, fun card hcard => ?_⟩
      exact (hlate hcut hcard).elim (hmembers card) id
  | running | marked | released => trivial

namespace Closing

/-- What holds of a node at every point. -/
structure Sound (s : Closing) : Prop where
  orderly : s.world.pool.Orderly
  threads : ∀ role call, s.threads role = .working call → call.Spares
  loose : ∀ call ∈ s.loose, call.Spares
  halt : s.halt.Fits s.world.pool

variable {policy : PoolPolicy} {localKey : Bytes} {store : Option PeerStore} {net : Net}
  {initial : List Endpoint} {first s after later : Closing} {role : Role} {cut : Nat}

theorem sound_start : (start policy localKey store net initial).Sound where
  orderly := Pool.orderly_empty policy localKey store
  threads role call hworking := by
    cases role with
    | setup =>
        obtain rfl : Procedure.dialAll initial = call := Stand.working.inj hworking
        exact ⟨[], Procedure.keeps_dialAll initial⟩
    | _ => exact absurd hworking nofun
  loose := nofun
  halt := trivial

theorem working_of_put {stand : Stand} {other : Role} {call : Procedure Unit}
    (hworking : (s.put role stand).threads other = .working call) :
    stand = .working call ∨ s.threads other = .working call := by
  by_cases hother : other = role
  · subst hother
    exact Or.inl ((Function.update_self ..).symm.trans hworking)
  · exact Or.inr ((Function.update_of_ne hother ..).symm.trans hworking)

/-- A thread takes another stand. -/
theorem Sound.put (hsound : s.Sound) {stand : Stand}
    (hstand : ∀ call, stand = .working call → call.Spares) : (s.put role stand).Sound where
  orderly := hsound.orderly
  threads other call hworking :=
    (working_of_put hworking).elim (hstand call) (hsound.threads other call)
  loose := hsound.loose
  halt := hsound.halt

theorem Sound.fits (hsound : s.Sound) {halt : Halt} (hhalt : s.halt = halt) :
    halt.Fits s.world.pool :=
  hhalt ▸ hsound.halt

theorem Sound.grow (hsound : s.Sound) {after : World} (hgrows : s.world.Grows after) :
    ({ s with world := after } : Closing).Sound :=
  ⟨hgrows.orderly, hsound.threads, hsound.loose, hsound.halt.grow hgrows⟩

theorem spares_round (role : Role) : role.round.Spares := by
  cases role with
  | timer => exact @Procedure.spares_quietly _ [] _ _ Procedure.keeps_maintain
  | _ => exact ⟨[], trivial⟩

/-- A call of a thread that nobody waits for goes on or ends, and the others are as they were. -/
theorem Sound.others (hsound : s.Sound) {before behind calls : List (Procedure Unit)}
    {call : Procedure Unit} (hloose : s.loose = before ++ call :: behind)
    (hcalls : ∀ call ∈ calls, call.Spares) : ∀ call ∈ before ++ calls ++ behind, call.Spares := by
  have hbefore := hsound.loose
  rw [hloose] at hbefore
  simp only [List.mem_append, List.mem_cons] at hbefore ⊢
  rintro other ((hother | hother) | hother)
  · exact hbefore other (Or.inl hother)
  · exact hcalls other hother
  · exact hbefore other (Or.inr (Or.inr hother))

theorem Sound.goLoose (hsound : s.Sound) {before behind : List (Procedure Unit)}
    {call next : Procedure Unit} {after : World} (hloose : s.loose = before ++ call :: behind)
    (hsection : call.Section s.world next after) :
    ({ s with world := after, loose := before ++ next :: behind } : Closing).Sound := by
  have hcall : call.Spares := hsound.loose call (hloose ▸ List.mem_append_cons_self)
  obtain ⟨hgrows, hnext⟩ := hcall.step hsound.orderly hsection
  obtain ⟨horderly, hthreads, -, hhalt⟩ := hsound.grow hgrows
  have hcalls := @Sound.others s hsound before behind [next] call hloose (by simpa using hnext)
  exact ⟨horderly, hthreads, by simpa using hcalls, hhalt⟩

/-- A node that lists its members owes it to all of them to take them out. -/
theorem Sound.list (hsound : s.Sound) :
    ({ s with
      halt := .leaving s.world.pool.nextId
        (Procedure.leaveAll (s.world.pool.members.map (·.id))) } : Closing).Sound := by
  refine ⟨hsound.orderly, hsound.threads, hsound.loose, Nat.le_refl _,
    ⟨[], Procedure.keeps_leaveAll _⟩, _, Procedure.expels_leaveAll _, fun card hcard _ => ?_⟩
  obtain ⟨peer, hpeer, rfl⟩ := List.mem_map.1 hcard
  exact List.mem_map_of_mem hpeer

/-- Whoever was listed and is still a member is still to be taken out. -/
theorem Sound.leave (hsound : s.Sound) {call next : Procedure Unit} {after : World}
    (hhalt : s.halt = .leaving cut call) (hsection : call.Section s.world next after) :
    ({ s with world := after, halt := .leaving cut next } : Closing).Sound := by
  obtain ⟨hcut, hspares, owed, hexpels, howed⟩ := hsound.fits hhalt
  obtain ⟨hgrows, hnext⟩ := hspares.step hsound.orderly hsection
  obtain ⟨-, left, hleft, hrest⟩ := hexpels.step hsound.orderly hsection
  obtain ⟨horderly, hthreads, hloose, -⟩ := hsound.grow hgrows
  refine ⟨horderly, hthreads, hloose, Nat.le_trans hcut hgrows.nextId, hnext, left, hrest,
    fun card hcard hid => hleft card hcard (howed card ?_ hid)⟩
  -- whoever has joined in between has an id that was not yet drawn when the members were listed
  exact (hgrows.members card hcard).resolve_right fun hnew =>
    Nat.not_le.2 hid (Nat.le_trans hcut hnew)

/-- When nothing is left to be done, all who were listed are out. -/
theorem Sound.left (hsound : s.Sound) (hhalt : s.halt = .leaving cut (.done ())) :
    ({ s with halt := .joining cut } : Closing).Sound := by
  obtain ⟨hcut, -, owed, hexpels, howed⟩ := hsound.fits hhalt
  refine ⟨hsound.orderly, hsound.threads, hsound.loose, hcut, fun card hcard => ?_⟩
  exact Nat.le_of_not_lt fun hid => absurd (hexpels (howed card hcard hid)) List.not_mem_nil

theorem Step.sound (hstep : s.Step after) (hsound : s.Sound) : after.Sound := by
  cases hstep with
  | @look role hlooking hon =>
      refine hsound.put ?_
      rintro _ ⟨⟩
      exact spares_round role
  | quit | again => exact hsound.put nofun
  | go hworking hsection =>
      obtain ⟨hgrows, hnext⟩ := (hsound.threads _ _ hworking).step hsound.orderly hsection
      refine (hsound.grow hgrows).put ?_
      rintro _ ⟨⟩
      exact hnext
  | accept hdone e =>
      have hloose : ∀ call ∈ Procedure.welcome e :: s.loose, call.Spares :=
        List.forall_mem_cons.2 ⟨⟨[], Procedure.keeps_welcome e⟩, hsound.loose⟩
      exact Sound.put (⟨hsound.orderly, hsound.threads, hloose, hsound.halt⟩ : Sound
        { s with loose := Procedure.welcome e :: s.loose }) nofun
  | hear hdone event =>
      refine hsound.put ?_
      rintro _ ⟨⟩
      exact ⟨[], Procedure.keeps_handle event⟩
  | @exchange list lists hlists =>
      have hgrows : s.world.Grows (s.world.withPool ({ · with exchanges := lists })) :=
        World.grows_of_roster hsound.orderly rfl rfl rfl
      have hcall : (Procedure.receivePeers list).quietly.Spares :=
        @Procedure.spares_quietly _ [] _ _ (Procedure.keeps_receivePeers list)
      obtain ⟨horderly, hthreads, hloose, hhalt⟩ := hsound.grow hgrows
      exact ⟨horderly, hthreads, List.forall_mem_cons.2 ⟨hcall, hloose⟩, hhalt⟩
  | goLoose hloose hsection => exact hsound.goLoose hloose hsection
  | @finish before behind hloose =>
      have hcalls := @Sound.others s hsound before behind [] (.done ()) hloose (by simp)
      exact ⟨hsound.orderly, hsound.threads, by simpa using hcalls, hsound.halt⟩
  | mark | release => exact ⟨hsound.orderly, hsound.threads, hsound.loose, trivial⟩
  | list hhalt hsection =>
      obtain ⟨rfl, rfl⟩ := Procedure.of_shutdown hsection
      exact hsound.list
  | leave hhalt hsection => exact hsound.leave hhalt hsection
  | left hhalt => exact hsound.left hhalt
  | joined hhalt hended =>
      have hfits := hsound.fits hhalt
      exact ⟨hsound.orderly, hsound.threads, hsound.loose, hfits⟩
  | meanwhile hroster hnext hkey hexchanges =>
      exact hsound.grow (World.grows_of_roster hsound.orderly hroster hnext hkey)

/-- A run goes on from where it has come to. -/
theorem Run.onward (_ : Run first s) : Run s s :=
  .rest

theorem Run.trans (hrun : Run first s) (hlater : Run s later) : Run first later := by
  induction hlater with
  | rest => exact hrun
  | step _ hstep ih => exact ih.step hstep

theorem Run.sound (hrun : Run first s) (hfirst : first.Sound) : s.Sound := by
  induction hrun with
  | rest => exact hfirst
  | step _ hstep ih => exact hstep.sound ih

/-! ## When no thread is at work -/

/-- No thread is at work, and none begins a round. -/
structure Quiet (s : Closing) : Prop where
  resting : ∀ role : Role, role.goesOn s.halt = false
  threads : ∀ role call, s.threads role ≠ .working call
  loose : s.loose = []
  exchanges : s.world.pool.exchanges = []

theorem Quiet.put (hquiet : s.Quiet) : (s.put role .ended).Quiet where
  resting := hquiet.resting
  threads other call hworking := (working_of_put hworking).elim nofun (hquiet.threads other call)
  loose := hquiet.loose
  exchanges := hquiet.exchanges

/-- A step of a node in which no thread is at work is one of stopping, and nobody joins. -/
theorem Step.quiet (hstep : s.Step after) (hsound : s.Sound) (hquiet : s.Quiet) :
    after.Quiet ∧ after.world.pool.nextId = s.world.pool.nextId ∧
      after.world.pool.roster.Sublist s.world.pool.roster := by
  obtain ⟨hresting, hthreads, hloose, hexchanges⟩ := hquiet
  have hsame : s.world.pool.roster.Sublist s.world.pool.roster := List.Sublist.refl _
  cases hstep with
  | look hlooking hon => exact absurd hon (by rw [hresting]; exact Bool.false_ne_true)
  | quit hlooking hon => exact ⟨Quiet.put ⟨hresting, hthreads, hloose, hexchanges⟩, rfl, hsame⟩
  | again hworking | go hworking hsection | accept hworking e | hear hworking event =>
      exact absurd hworking (hthreads _ _)
  | exchange hlists => exact absurd (hexchanges.symm.trans hlists) nofun
  | goLoose hcalls hsection => exact absurd (hloose.symm.trans hcalls) (by simp)
  | finish hcalls => exact absurd (hloose.symm.trans hcalls) (by simp)
  | mark hhalt => exact absurd (hresting .events) (by rw [hhalt]; exact nofun)
  | release hhalt => exact absurd (hresting .timer) (by rw [hhalt]; exact nofun)
  | @leave cut call next after hhalt hsection =>
      obtain ⟨-, hspares, owed, hexpels, -⟩ := hsound.fits hhalt
      have hspared := hexpels.spares hspares hsound.orderly hsection
      have hkept := (hexpels.step hsound.orderly hsection).1
      exact ⟨⟨fun role => by cases role <;> rfl, hthreads, hloose, hkept.trans hexchanges⟩,
        hspared.nextId, hspared.roster⟩
  | list hhalt hsection =>
      obtain ⟨rfl, rfl⟩ := Procedure.of_shutdown hsection
      exact ⟨⟨fun role => by cases role <;> rfl, hthreads, hloose, hexchanges⟩, rfl, hsame⟩
  | left hhalt | joined hhalt hended =>
      exact ⟨⟨fun role => by cases role <;> rfl, hthreads, hloose, hexchanges⟩, rfl, hsame⟩
  | meanwhile hroster hnext hkey hkept =>
      exact ⟨⟨hresting, hthreads, hloose, hkept.trans hexchanges⟩, hnext, hroster ▸ hsame⟩

/-- From a point on at which no thread is at work, nobody joins. -/
theorem Run.quiet (hrun : Run s later) (hsound : s.Sound) (hquiet : s.Quiet) :
    later.Quiet ∧ later.world.pool.nextId = s.world.pool.nextId ∧
      later.world.pool.roster.Sublist s.world.pool.roster := by
  induction hrun with
  | rest => exact ⟨hquiet, rfl, List.Sublist.refl _⟩
  | step hrun hstep ih =>
      obtain ⟨hquiet, hnext, hroster⟩ := ih
      obtain ⟨hquiet', hnext', hroster'⟩ := hstep.quiet (hrun.sound hsound) hquiet
      exact ⟨hquiet', hnext'.trans hnext, hroster'.trans hroster⟩

/-- No id is given twice. -/
theorem Step.nextId_le (hstep : s.Step after) (hsound : s.Sound) :
    s.world.pool.nextId ≤ after.world.pool.nextId := by
  cases hstep with
  | go hworking hsection =>
      exact ((hsound.threads _ _ hworking).step hsound.orderly hsection).1.nextId
  | goLoose hloose hsection =>
      have hcall := hsound.loose _ (hloose ▸ List.mem_append_cons_self)
      exact (hcall.step hsound.orderly hsection).1.nextId
  | leave hhalt hsection =>
      exact ((hsound.fits hhalt).2.1.step hsound.orderly hsection).1.nextId
  | list hhalt hsection => rw [(Procedure.of_shutdown hsection).2]
  | meanwhile hroster hnext hkey hexchanges => exact Nat.le_of_eq hnext.symm
  | _ => exact Nat.le_refl _

/-- A node that is about to list its members takes out all who have joined by then. -/
theorem Run.since (hrun : Run s later) (hsound : s.Sound) (hreleased : s.halt = .released) :
    s.world.pool.nextId ≤ later.world.pool.nextId ∧ later.halt.Since s.world.pool.nextId := by
  induction hrun with
  | rest => exact ⟨Nat.le_refl _, hreleased ▸ trivial⟩
  | step hrun hstep ih =>
      obtain ⟨hnext, hsince⟩ := ih
      refine ⟨Nat.le_trans hnext (hstep.nextId_le (hrun.sound hsound)), ?_⟩
      cases hstep with
      | list hhalt hsection => exact hnext
      | mark hhalt | release hhalt => trivial
      | leave hhalt hsection | left hhalt | joined hhalt hended =>
          rw [hhalt] at hsince
          exact hsince
      | _ => exact hsince

/-- A node that has stopped has waited for its threads. -/
theorem Step.ended (hstep : s.Step after)
    (hended : ∀ cut, s.halt = .stopped cut → ∀ role, s.threads role = .ended) :
    ∀ cut, after.halt = .stopped cut → ∀ role, after.threads role = .ended := by
  cases hstep with
  | look hother hon | quit hother hon | again hother | go hother hsection | accept hother e
  | hear hother event =>
      exact fun cut hstopped => absurd ((hended cut hstopped _).symm.trans hother) nofun
  | joined hhalt hjoined => exact fun _ _ => hjoined
  | mark | release | list | leave | left => exact nofun
  | _ => exact hended

theorem Run.ended (hrun : Run (start policy localKey store net initial) s) :
    ∀ cut, s.halt = .stopped cut → ∀ role, s.threads role = .ended := by
  induction hrun with
  | rest => exact nofun
  | step _ hstep ih => exact hstep.ended ih

/-- **Whoever is a member when a node has stopped joined after it had begun to take its members
out.**  If no thread was at work then, there is nobody, and at no later point either.  If threads were
at work, and those that nobody waits for have ended too, nobody joins any more. -/
theorem late_or_none (hrun : Run (start policy localKey store net initial) s)
    (hreleased : s.halt = .released) (hlater : Run s later) (hstopped : later.halt = .stopped cut) :
    (∀ peer ∈ later.world.pool.members, s.world.pool.nextId ≤ peer.id) ∧
      (s.Quiet → later.world.pool.members = []) ∧
      (later.loose = [] → later.world.pool.exchanges = [] → ∀ last, Run later last →
        last.world.pool.roster.Sublist later.world.pool.roster) := by
  have hsound := hrun.sound sound_start
  have hafter := hlater.sound hsound
  have hlate : ∀ peer ∈ later.world.pool.members, s.world.pool.nextId ≤ peer.id := by
    have hsince := (hlater.since hsound hreleased).2
    rw [hstopped] at hsince
    exact fun peer hmember =>
      Nat.le_trans hsince ((hafter.fits hstopped).2 peer.card (Pool.mem_roster hmember))
  refine ⟨hlate, fun hquiet => ?_, fun hloose hexchanges last hlast => ?_⟩
  · have hnext := (hlater.quiet hsound hquiet).2.1
    refine List.eq_nil_iff_forall_not_mem.2 fun peer hmember => ?_
    have hdrawn := hafter.orderly.drawn peer.card (Pool.mem_roster hmember)
    exact Nat.not_le.2 (hnext ▸ hdrawn) (hlate peer hmember)
  · have hended := (hrun.trans hlater).ended cut hstopped
    have hquiet : later.Quiet :=
      ⟨fun role => by rw [hstopped]; cases role <;> rfl,
        fun role call => by rw [hended role]; exact nofun, hloose, hexchanges⟩
    exact (hlast.quiet hafter hquiet).2.2

/-- A node dials one other and is told to stop while no thread is at work. -/
theorem late_or_none_idle :
    ∃ s later, Run (start {} [0] none {} [⟨"b", 7000⟩]) s ∧ s.halt = .released ∧ s.Quiet ∧
      s.world.pool.members ≠ [] ∧ Run s later ∧ later.halt = .stopped 2 ∧
      (∀ peer ∈ later.world.pool.members, s.world.pool.nextId ≤ peer.id) ∧
      (s.Quiet → later.world.pool.members = []) ∧
      (later.loose = [] → later.world.pool.exchanges = [] → ∀ last, Run later last →
        last.world.pool.roster.Sublist later.world.pool.roster) := by
  have hreleased := (@Run.rest (start {} [0] none {} [⟨"b", 7000⟩]))
    |>.step (@Step.go _ .setup _ _ _ rfl .act)
    |>.step (@Step.go _ .setup _ _ _ rfl (.dial (.ok Life.inboundLink)))
    |>.step (@Step.go _ .setup _ _ _ rfl .offer)
    |>.step (@Step.again _ .setup rfl)
    |>.step (.mark rfl)
    |>.step (.release rfl)
  -- the one member is taken out in five sections
  have hstopped := hreleased.onward
    |>.step (.list rfl .act)
    |>.step (.leave rfl .act)
    |>.step (.leave rfl .act)
    |>.step (.leave rfl .act)
    |>.step (.leave rfl .act)
    |>.step (.leave rfl .act)
    |>.step (.left rfl)
    |>.step (@Step.quit _ .listener rfl rfl)
    |>.step (@Step.quit _ .events rfl rfl)
    |>.step (@Step.quit _ .timer rfl rfl)
    |>.step (@Step.quit _ .setup rfl rfl)
    |>.step (.joined rfl fun role => by cases role <;> rfl)
  refine ⟨_, _, hreleased, rfl, ⟨?_, ?_, rfl, rfl⟩, nofun, hstopped, rfl,
    late_or_none hreleased rfl hstopped rfl⟩
  · exact fun role => by cases role <;> rfl
  · exact fun role call => by cases role <;> exact nofun

/-- **A node that has stopped may have a member**, if it was dialing when its members were listed.  Nor
need one that has none stay so: somebody who had dialed in before is let in after it has stopped. -/
theorem outlived :
    (∃ s, Run (start {} [0] none {} [⟨"b", 7000⟩]) s ∧ s.halt = .stopped 1 ∧
      s.world.pool.members ≠ []) ∧
    ∃ s later, Run (start {} [0] none {} []) s ∧ s.halt = .stopped 1 ∧
      s.world.pool.members = [] ∧ Run s later ∧ later.world.pool.members ≠ [] := by
  have hjoined := (@Run.rest (start {} [0] none {} [⟨"b", 7000⟩]))
    |>.step (@Step.go _ .setup _ _ _ rfl .act)
    |>.step (.mark rfl)
    |>.step (.release rfl)
    |>.step (.list rfl .act)
    |>.step (.left rfl)
    |>.step (@Step.go _ .setup _ _ _ rfl (.dial (.ok Life.inboundLink)))
    |>.step (@Step.go _ .setup _ _ _ rfl .offer)
    |>.step (@Step.again _ .setup rfl)
    |>.step (@Step.quit _ .listener rfl rfl)
    |>.step (@Step.quit _ .events rfl rfl)
    |>.step (@Step.quit _ .timer rfl rfl)
    |>.step (@Step.quit _ .setup rfl rfl)
    |>.step (.joined rfl fun role => by cases role <;> rfl)
  have hstopped := (@Run.rest (start {} [0] none {} []))
    |>.step (@Step.look _ .listener rfl rfl)
    |>.step (.accept rfl ⟨"b", 7000⟩)
    |>.step (.mark rfl)
    |>.step (.release rfl)
    |>.step (.list rfl .act)
    |>.step (.left rfl)
    |>.step (@Step.again _ .setup rfl)
    |>.step (@Step.quit _ .listener rfl rfl)
    |>.step (@Step.quit _ .events rfl rfl)
    |>.step (@Step.quit _ .timer rfl rfl)
    |>.step (@Step.quit _ .setup rfl rfl)
    |>.step (.joined rfl fun role => by cases role <;> rfl)
  have hmet := hstopped.onward
    |>.step (@Step.goLoose _ [] [] _ _ _ rfl (.dial (.ok Life.inboundLink)))
    |>.step (@Step.goLoose _ [] [] _ _ _ rfl .act)
    |>.step (@Step.goLoose _ [] [] _ _ _ rfl .offer)
  exact ⟨⟨_, hjoined, rfl, nofun⟩, _, _, hstopped, rfl, rfl, hmet, nofun⟩

end Closing

end Overlay
