import Overlay.Proofs.Handshake.Greeting
import Overlay.Proofs.Node.Standing
import Overlay.Proofs.Pool.Admission

/-!
# Tracing encounters

An encounter of strangers is traced by a sketch: what the sketch says of the
connections is so, and each node stands to the other one as the sketch says.
Every step of the encounter is one that the rules of sketches allow.
-/

namespace Overlay

/-! ## How a pool stands -/

section Pools

variable {first pool : Pool} {key : Bytes} {peer : Peer}

/-- A pool that was joined by a peer with a key, and by nobody else. -/
structure Joined (first pool : Pool) (key : Bytes) (peer : Peer) : Prop where
  members : pool.members = first.members ++ [peer]
  key : peer.identity.publicKey = key
  id : peer.id = first.nextId

/-- How a pool stands to the node of a key.  The lines are those of the two connections. -/
inductive Stands (first pool : Pool) (key : Bytes) (line : Side → Nat) : Standing → Prop
  | alone (hmembers : pool.members = first.members) (hnext : pool.nextId = first.nextId) :
      Stands first pool key line .alone
  | linked {dialer : Side} {peer : Peer} (hjoined : Joined first pool key peer)
      (hstate : peer.state = .connected)
      (hsession : peer.session.map (·.line) = some (line dialer)) :
      Stands first pool key line (.linked dialer)
  | waiting {peer : Peer} (hjoined : Joined first pool key peer)
      (hstate : peer.state = .reconnecting) (hsession : peer.session = none) :
      Stands first pool key line .waiting

/-- Only the line of the connection that links a node matters. -/
theorem Stands.relabel {line other : Side → Nat} {standing : Standing}
    (hstands : Stands first pool key line standing)
    (hline : ∀ dialer, standing = .linked dialer → other dialer = line dialer) :
    Stands first pool key other standing := by
  cases hstands with
  | alone hmembers hnext => exact .alone hmembers hnext
  | linked hjoined hstate hsession =>
      exact .linked hjoined hstate (by rw [hsession, hline _ rfl])
  | waiting hjoined hstate hsession => exact .waiting hjoined hstate hsession

/-- A pool that knows no member with a key, and whose members have ids that it has given. -/
structure Unacquainted (first : Pool) (key : Bytes) : Prop where
  ids : ∀ peer ∈ first.members, peer.id < first.nextId
  keys : ∀ peer ∈ first.members, peer.identity.publicKey ≠ key

theorem Pool.withKey?_eq_none (hkeys : ∀ peer ∈ pool.members, peer.identity.publicKey ≠ key) :
    pool.withKey? key = none := by
  rw [withKey?, List.find?_eq_none]
  intro peer hmember
  simpa using hkeys peer hmember

theorem Pool.atEndpoint?_eq_none {endpoint : Endpoint}
    (hendpoints : ∀ peer ∈ pool.members, peer.endpoint ≠ endpoint) :
    pool.atEndpoint? endpoint = none := by
  rw [atEndpoint?, List.find?_eq_none]
  intro peer hmember
  simpa using hendpoints peer hmember

/-- The peer that joined is the one with the key. -/
theorem Joined.withKey? (hjoined : Joined first pool key peer) (hfirst : Unacquainted first key) :
    pool.withKey? key = some peer := by
  have hnone := Pool.withKey?_eq_none hfirst.keys
  rw [Pool.withKey?] at hnone
  simp [Pool.withKey?, hjoined.members, hnone, hjoined.key]

/-- A change of the peer that joined changes no other member. -/
theorem Joined.change (hjoined : Joined first pool key peer) (hfirst : Unacquainted first key)
    {changed : Peer} (hkey : changed.identity = peer.identity) (hid : changed.id = peer.id) :
    Joined first (pool.change peer.id fun _ => changed) key changed where
  members := by
    have hsame : first.members.map (fun other => if other.id = peer.id then changed else other) =
        first.members := by
      refine (List.map_congr_left fun other hother => ?_).trans (List.map_id first.members)
      have hlt := hfirst.ids other hother
      rw [hjoined.id, if_neg (Nat.ne_of_lt hlt), id_eq]
    simp [Pool.change, hjoined.members, hsame]
  key := by rw [hkey, hjoined.key]
  id := by rw [hid, hjoined.id]

end Pools

/-! ## What the parts of a step change -/

def Passage.IsOpened : Passage → Prop
  | .unused | .spared => False
  | .greeted | .turnedAway | .answered => True

namespace Encounter

variable {start e next : Encounter} {side dialer : Side} {sketch : Sketch}

@[simp] theorem act_connection (f : World → World) : (e.act side f).connection = e.connection :=
  rfl

@[simp] theorem act_world_self (f : World → World) :
    (e.act side f).world side = f (e.world side) := by
  simp [act, world]

theorem act_world_of_ne (f : World → World) {another : Side} (hne : another ≠ side) :
    (e.act side f).world another = e.world another := by
  simp [act, world, Function.update_of_ne hne]

@[simp] theorem act_pool_self (f : World → World) :
    (e.act side f).pool side = (f (e.world side)).pool := by
  simp [pool]

theorem act_pool_of_ne (f : World → World) {another : Side} (hne : another ≠ side) :
    (e.act side f).pool another = e.pool another := by
  simp [pool, act_world_of_ne f hne]

theorem act_act (f g : World → World) :
    (e.act side f).act side g = e.act side fun world => g (f world) := by
  simp [act]

@[simp] theorem pass_party (f : Connection → Connection) : (e.pass dialer f).party = e.party :=
  rfl

@[simp] theorem pass_connection_self (f : Connection → Connection) :
    (e.pass dialer f).connection dialer = f (e.connection dialer) := by
  simp [pass]

theorem pass_connection_of_ne (f : Connection → Connection) {other : Side} (hne : other ≠ dialer) :
    (e.pass dialer f).connection other = e.connection other := by
  simp [pass, Function.update_of_ne hne]

/-- The parts of a node that no step changes. -/
structure SameParty (before after : Party) : Prop where
  handshaker : after.handshaker = before.handshaker
  host : after.host = before.host
  target : after.target = before.target
  greetsAt : after.greetsAt = before.greetsAt
  answersAt : after.answersAt = before.answersAt
  localKey : after.world.pool.localKey = before.world.pool.localKey

theorem Strangers.unacquainted (hstrangers : Strangers start) (side : Side) :
    Unacquainted (start.pool side) (start.key side.other) :=
  ⟨hstrangers.ids side, hstrangers.unknownKeys side⟩

/-! ## Tracing -/

/-- A sketch traces an encounter. -/
structure Traces (start e : Encounter) (sketch : Sketch) : Prop where
  same : ∀ side, SameParty (start.party side) (e.party side)
  passage : ∀ dialer, (e.connection dialer).passage = sketch.passage dialer
  fate : ∀ side dialer, (e.connection dialer).fate side = sketch.fate side dialer
  shut : ∀ side dialer, (sketch.passage dialer).IsOpened →
    e.hasShut side dialer = sketch.shut side dialer
  /-- The lines of connections are there. -/
  known : ∀ side dialer, (sketch.passage dialer).IsOpened →
    e.line side dialer < (e.world side).net.lines.length
  /-- Connections have lines of their own. -/
  apart : ∀ side dialer, (sketch.passage dialer).IsOpened →
    (sketch.passage dialer.other).IsOpened → e.line side dialer ≠ e.line side dialer.other
  stands : ∀ side, Stands (start.pool side) (e.pool side) (start.key side.other) (e.line side)
    (sketch.standing side)

namespace Traces

/-- Whatever happens to the world of a node, the node stays the same. -/
theorem same_act (htraces : Traces start e sketch) {f : World → World}
    (hkey : (f (e.world side)).pool.localKey = (e.pool side).localKey) (another : Side) :
    SameParty (start.party another) ((e.act side f).party another) := by
  have hsame := htraces.same another
  by_cases hanother : another = side
  · subst hanother
    have hparty : (e.act another f).party another =
        { e.party another with world := f (e.world another) } := by
      simp [act, world]
    rw [hparty]
    exact { hsame with localKey := hkey.trans hsame.localKey }
  · have hparty : (e.act side f).party another = e.party another := by
      simp [act, Function.update_of_ne hanother]
    rwa [hparty]

theorem close (htraces : Traces start e sketch) {f : World → World}
    (hf : f (e.world side) = (e.world side).withNet (·.close (e.line side dialer)))
    (hopened : (sketch.passage dialer).IsOpened) :
    Traces start (e.act side f) (sketch.setShut side dialer) := by
  constructor
  case same => exact htraces.same_act (by rw [hf]; rfl)
  case passage => exact htraces.passage
  case fate => exact htraces.fate
  case shut =>
    intro another other hother
    have hbefore := htraces.shut another other hother
    by_cases hanother : another = side
    · subst hanother
      simp only [hasShut, act_world_self, hf, World.withNet, Sketch.setShut, true_and] at hbefore ⊢
      rw [Net.nearOpen_close]
      by_cases hsame : other = dialer
      · subst hsame
        simp [line]
      · have hapart : e.line another other ≠ e.line another dialer := by
          obtain rfl := Side.eq_other_of_ne hsame
          exact (htraces.apart another dialer hopened hother).symm
        rw [if_neg hsame, ← hbefore]
        have hother : ((e.act another f).line another other != e.line another dialer) = true :=
          bne_iff_ne.2 hapart
        rw [hother, Bool.and_true]
        rfl
    · simp only [Sketch.setShut, hanother, false_and, if_false]
      rw [← hbefore, hasShut, act_world_of_ne f hanother]
      rfl
  case known =>
    intro another other hother
    have hbefore := htraces.known another other hother
    by_cases hanother : another = side
    · subst hanother
      rw [act_world_self, hf, World.withNet, Net.length_close]
      exact hbefore
    · rw [act_world_of_ne f hanother]
      exact hbefore
  case apart => exact htraces.apart
  case stands =>
    intro another
    have hbefore := htraces.stands another
    by_cases hanother : another = side
    · subst hanother
      rw [act_pool_self, hf]
      exact hbefore
    · rw [act_pool_of_ne f hanother]
      exact hbefore

theorem repool (htraces : Traces start e sketch) {f : World → World} {standing : Standing}
    (hnet : (f (e.world side)).net = (e.world side).net)
    (hkey : (f (e.world side)).pool.localKey = (e.pool side).localKey)
    (hstands : Stands (start.pool side) (f (e.world side)).pool (start.key side.other)
      (e.line side) standing) :
    Traces start (e.act side f) (sketch.setStanding side standing) := by
  have hnets (another : Side) : ((e.act side f).world another).net = (e.world another).net := by
    by_cases hanother : another = side
    · subst hanother
      rw [act_world_self, hnet]
    · rw [act_world_of_ne f hanother]
  constructor
  case same => exact htraces.same_act hkey
  case passage => exact htraces.passage
  case fate => exact htraces.fate
  case shut =>
    intro another other hother
    rw [hasShut, hnets]
    exact htraces.shut another other hother
  case known =>
    intro another other hother
    rw [hnets]
    exact htraces.known another other hother
  case apart => exact htraces.apart
  case stands =>
    intro another
    by_cases hanother : another = side
    · subst hanother
      simp only [Sketch.setStanding, if_true, act_pool_self]
      exact hstands
    · simp only [Sketch.setStanding, hanother, if_false, act_pool_of_ne f hanother]
      exact htraces.stands another

theorem settle (htraces : Traces start e sketch) (result : Except NetError Admission) :
    Traces start (e.settle side dialer result)
      (sketch.setFate side dialer (.ofResult result)) := by
  have hline (another other : Side) :
      (e.settle side dialer result).line another other = e.line another other := by
    by_cases hother : other = dialer
    · subst hother
      simp [Encounter.settle, line]
    · simp [Encounter.settle, line, pass_connection_of_ne _ hother]
  constructor
  case same => exact htraces.same
  case passage =>
    intro other
    refine Eq.trans ?_ (htraces.passage other)
    by_cases hother : other = dialer
    · subst hother
      simp [Encounter.settle]
    · simp [Encounter.settle, pass_connection_of_ne _ hother]
  case fate =>
    intro another other
    have hbefore := htraces.fate another other
    by_cases hother : other = dialer
    · subst hother
      by_cases hanother : another = side
      · subst hanother
        simp [Encounter.settle, Connection.fate, Sketch.setFate]
      · simpa [Encounter.settle, Connection.fate, Sketch.setFate, hanother] using hbefore
    · rw [Encounter.settle, pass_connection_of_ne _ hother, hbefore]
      simp [Sketch.setFate, hother]
  case shut =>
    intro another other hother
    rw [hasShut, hline]
    exact htraces.shut another other hother
  case known =>
    intro another other hother
    rw [hline]
    exact htraces.known another other hother
  case apart =>
    intro another other hopened hother
    rw [hline, hline]
    exact htraces.apart another other hopened hother
  case stands =>
    intro another
    rw [funext (hline another)]
    exact htraces.stands another

/-- A connection comes further without being opened. -/
theorem pass (htraces : Traces start e sketch) {passage : Passage}
    (hopened : passage.IsOpened → (sketch.passage dialer).IsOpened) :
    Traces start (e.pass dialer ({ · with passage })) (sketch.setPassage dialer passage) := by
  have hline (another other : Side) :
      (e.pass dialer ({ · with passage })).line another other = e.line another other := by
    by_cases hother : other = dialer
    · subst hother
      simp [line]
    · simp [line, pass_connection_of_ne _ hother]
  -- what is open now was open before
  have hbefore {other : Side}
      (hother : ((sketch.setPassage dialer passage).passage other).IsOpened) :
      (sketch.passage other).IsOpened := by
    by_cases hsame : other = dialer
    · subst hsame
      exact hopened (by simpa [Sketch.setPassage] using hother)
    · simpa [Sketch.setPassage, hsame] using hother
  constructor
  case same => exact htraces.same
  case passage =>
    intro other
    by_cases hother : other = dialer
    · subst hother
      simp [Sketch.setPassage]
    · rw [pass_connection_of_ne _ hother, htraces.passage]
      simp [Sketch.setPassage, hother]
  case fate =>
    intro another other
    refine Eq.trans ?_ (htraces.fate another other)
    by_cases hother : other = dialer
    · subst hother
      simp [Connection.fate]
    · rw [pass_connection_of_ne _ hother]
  case shut =>
    intro another other hother
    rw [hasShut, hline]
    exact htraces.shut another other (hbefore hother)
  case known =>
    intro another other hother
    rw [hline]
    exact htraces.known another other (hbefore hother)
  case apart =>
    intro another other hother hrest
    rw [hline, hline]
    exact htraces.apart another other (hbefore hother) (hbefore hrest)
  case stands =>
    intro another
    rw [funext (hline another)]
    exact htraces.stands another

theorem dial (htraces : Traces start e sketch) (hpassage : sketch.passage dialer = .unused)
    (hstanding : ∀ side, sketch.standing side ≠ .linked dialer) :
    Traces start (e.dial dialer) ((sketch.setPassage dialer .greeted).setOpen dialer) := by
  have hconnection {other : Side} (hother : other ≠ dialer) :
      (e.dial dialer).connection other = e.connection other := by
    simp [Encounter.dial, Function.update_of_ne hother]
  have hnew (another : Side) :
      (e.dial dialer).line another dialer = (e.world another).net.lines.length := by
    simp [Encounter.dial, line]
  have hold (another : Side) {other : Side} (hother : other ≠ dialer) :
      (e.dial dialer).line another other = e.line another other := by
    rw [line, hconnection hother, line]
  have hnet (another : Side) :
      ((e.dial dialer).world another).net = (e.world another).net.newLine.2 := rfl
  -- the other connection is open if and only if it was
  have hbefore {other : Side} (hother : other ≠ dialer)
      (hopened : (((sketch.setPassage dialer .greeted).setOpen dialer).passage other).IsOpened) :
      (sketch.passage other).IsOpened := by
    simpa [Sketch.setOpen, Sketch.setPassage, hother] using hopened
  constructor
  case same =>
    intro another
    exact { htraces.same another with localKey := (htraces.same another).localKey }
  case passage =>
    intro other
    by_cases hother : other = dialer
    · subst hother
      simp [Encounter.dial, Sketch.setOpen, Sketch.setPassage]
    · rw [hconnection hother, htraces.passage]
      simp [Sketch.setOpen, Sketch.setPassage, hother]
  case fate =>
    intro another other
    refine Eq.trans ?_ (htraces.fate another other)
    by_cases hother : other = dialer
    · subst hother
      simp [Encounter.dial, Connection.fate]
    · rw [hconnection hother]
  case shut =>
    intro another other hopened
    rw [hasShut, hnet, Net.nearOpen_newLine]
    by_cases hother : other = dialer
    · subst hother
      simp [hnew, Sketch.setOpen]
    · have hknown := htraces.known another other (hbefore hother hopened)
      have hshut := htraces.shut another other (hbefore hother hopened)
      rw [hasShut] at hshut
      simp [hold another hother, Sketch.setOpen, Sketch.setPassage, hother, ← hshut,
        Nat.ne_of_lt hknown]
  case known =>
    intro another other hopened
    rw [hnet, Net.length_newLine]
    by_cases hother : other = dialer
    · subst hother
      rw [hnew]
      exact Nat.lt_succ_self _
    · rw [hold another hother]
      exact Nat.lt_succ_of_lt (htraces.known another other (hbefore hother hopened))
  case apart =>
    intro another other hopened hopenedOther
    by_cases hother : other = dialer
    · subst hother
      rw [hnew, hold another (Side.other_ne other)]
      exact (Nat.ne_of_lt (htraces.known another _ (hbefore (Side.other_ne _) hopenedOther))).symm
    · obtain rfl := Side.eq_other_of_ne hother
      rw [Side.other_other, hnew, hold another hother]
      exact Nat.ne_of_lt (htraces.known another _ (hbefore hother hopened))
  case stands =>
    intro another
    refine (htraces.stands another).relabel fun other hlinked => hold another ?_
    rintro rfl
    exact hstanding another hlinked

/-! ## What the nodes know -/

theorem key_eq (htraces : Traces start e sketch) (side : Side) : e.key side = start.key side := by
  rw [key, (htraces.same side).handshaker]
  rfl

theorem localKey_eq (htraces : Traces start e sketch) (hstrangers : Strangers start) (side : Side) :
    (e.pool side).localKey = start.key side :=
  (htraces.same side).localKey.trans (hstrangers.localKeys side)

theorem key_ne (hstrangers : Strangers start) (side : Side) :
    start.key side ≠ start.key side.other := by
  cases side with
  | left => exact hstrangers.keys
  | right => exact hstrangers.keys.symm

/-- A node has had no member where it dials the other one. -/
theorem unknown_target (htraces : Traces start e sketch) (hstrangers : Strangers start)
    (dialer : Side) :
    ∀ peer ∈ (start.pool dialer).members, peer.endpoint ≠ (e.party dialer).target := by
  rw [(htraces.same dialer).target]
  exact hstrangers.unknownTargets dialer

/-- A node has had no member at the endpoint for which it takes the other one. -/
theorem unknown_origin (htraces : Traces start e sketch) (hstrangers : Strangers start)
    (dialer : Side) :
    ∀ peer ∈ (start.pool dialer.other).members,
      peer.endpoint ≠ e.origin dialer (start.greeting dialer).claim.identity := by
  have hunknown := hstrangers.unknownOrigins dialer.other
  rw [Side.other_other, ← (htraces.same dialer).host] at hunknown
  exact hunknown

/-- The key of the other node is not that of the pool. -/
theorem publicKey_ne_localKey (htraces : Traces start e sketch) (hstrangers : Strangers start)
    {identity : Identity} (hkey : identity.publicKey = start.key side.other) :
    identity.publicKey ≠ (e.pool side).localKey := by
  rw [hkey, htraces.localKey_eq hstrangers]
  exact (key_ne hstrangers side).symm

/-- A node has no peer for the other one as long as it is alone. -/
theorem withKey?_of_alone (htraces : Traces start e sketch) (hstrangers : Strangers start)
    (halone : sketch.standing side = .alone) :
    (e.pool side).withKey? (start.key side.other) = none := by
  have hstands := htraces.stands side
  rw [halone] at hstands
  cases hstands with
  | alone hmembers =>
      refine Pool.withKey?_eq_none ?_
      rw [hmembers]
      exact hstrangers.unknownKeys side

/-- A node that is alone has no peer at an endpoint at which it had none. -/
theorem atEndpoint?_of_alone (htraces : Traces start e sketch)
    (halone : sketch.standing side = .alone) {endpoint : Endpoint}
    (hunknown : ∀ peer ∈ (start.pool side).members, peer.endpoint ≠ endpoint) :
    (e.pool side).atEndpoint? endpoint = none := by
  have hstands := htraces.stands side
  rw [halone] at hstands
  cases hstands with
  | alone hmembers =>
      refine Pool.atEndpoint?_eq_none ?_
      rw [hmembers]
      exact hunknown

/-- A node whose peer has its session on a connection is linked by it. -/
theorem linked_of_session (htraces : Traces start e sketch) (hrules : sketch.Rules)
    (hstrangers : Strangers start) (hanswered : sketch.passage dialer = .answered) {peer : Peer}
    (hpeer : (e.pool side).withKey? (start.key side.other) = some peer)
    (hline : peer.session.map (·.line) = some (e.line side dialer)) :
    sketch.standing side = .linked dialer ∧ peer.state = .connected ∧
      Joined (start.pool side) (e.pool side) (start.key side.other) peer := by
  have hstands := htraces.stands side
  have hfirst := hstrangers.unacquainted side
  cases hstanding : sketch.standing side with
  | alone =>
      rw [htraces.withKey?_of_alone hstrangers hstanding] at hpeer
      exact absurd hpeer nofun
  | waiting =>
      rw [hstanding] at hstands
      cases hstands with
      | waiting hjoined _ hsession =>
          rw [hjoined.withKey? hfirst, Option.some.injEq] at hpeer
          subst hpeer
          rw [hsession] at hline
          exact absurd hline nofun
  | linked linked =>
      have hlinked := hrules.answered_of_linked hstanding
      rw [hstanding] at hstands
      cases hstands with
      | linked hjoined hstate hsession =>
          rw [hjoined.withKey? hfirst, Option.some.injEq] at hpeer
          subst hpeer
          rw [hsession, Option.some.injEq] at hline
          -- the lines of two connections that were opened are not the same
          have hsame : linked = dialer := by
            rcases Side.eq_or_eq_other linked dialer with hsame | rfl
            · exact hsame
            · have hapart := htraces.apart side dialer (by rw [hanswered]; trivial)
                (by rw [hlinked]; trivial)
              exact absurd hline.symm hapart
          exact ⟨by rw [hsame], hstate, hjoined⟩

/-! ## Handshakes -/

theorem version_eq (hstrangers : Strangers start) (side : Side) :
    (start.party side).handshaker.version = (start.party side.other).handshaker.version := by
  cases side with
  | left => exact hstrangers.versions
  | right => exact hstrangers.versions.symm

theorem greeting_eq (htraces : Traces start e sketch) (dialer : Side) :
    e.greeting dialer = start.greeting dialer := by
  rw [greeting, (htraces.same dialer).handshaker, (htraces.same dialer).greetsAt, greeting]

theorem answer_eq (htraces : Traces start e sketch) (dialer : Side) :
    e.answer dialer = start.answer dialer := by
  rw [answer, (htraces.same dialer.other).handshaker, (htraces.same dialer.other).answersAt, answer]

/-- The node that is dialed believes the one that dials. -/
theorem verify_greeting (htraces : Traces start e sketch) (hstrangers : Strangers start)
    (dialer : Side) :
    (e.party dialer.other).handshaker.verify (e.greeting dialer) =
      .ok (start.greeting dialer).claim.identity := by
  rw [htraces.greeting_eq, (htraces.same dialer.other).handshaker]
  exact Handshaker.verify_eq_ok_iff.2 ⟨key_ne hstrangers dialer, version_eq hstrangers dialer,
    hstrangers.greetings dialer, rfl⟩

/-- The node that dials believes the one that answers. -/
theorem verify_answer (htraces : Traces start e sketch) (hstrangers : Strangers start)
    (dialer : Side) :
    (e.party dialer).handshaker.verify (e.answer dialer) =
      .ok (start.answer dialer).claim.identity := by
  rw [htraces.answer_eq, (htraces.same dialer).handshaker]
  exact Handshaker.verify_eq_ok_iff.2 ⟨(key_ne hstrangers dialer).symm,
    (version_eq hstrangers dialer).symm, hstrangers.answers dialer, rfl⟩

/-- A node lets the other one in as long as it is alone. -/
theorem admission_of_alone (htraces : Traces start e sketch) (hstrangers : Strangers start)
    (halone : sketch.standing dialer.other = .alone) :
    e.admission dialer = .ok (start.greeting dialer).claim.identity := by
  have hself : (start.greeting dialer).claim.identity.publicKey ≠ (e.pool dialer.other).localKey :=
    htraces.publicKey_ne_localKey hstrangers (by rw [Side.other_other]; rfl)
  have hkey : (e.pool dialer.other).withKey? (start.greeting dialer).claim.identity.publicKey =
      none := by
    have hnone := htraces.withKey?_of_alone hstrangers halone
    rw [Side.other_other] at hnone
    exact hnone
  have hendpoint : (e.pool dialer.other).atEndpoint?
      (e.origin dialer (start.greeting dialer).claim.identity) = none :=
    htraces.atEndpoint?_of_alone halone (htraces.unknown_origin hstrangers dialer)
  simp [admission, htraces.verify_greeting hstrangers, Pool.authenticate, hself, hkey, hendpoint,
    Except.map]

/-! ## Steps -/

/-- A node that is alone adds a link to the other one. -/
theorem offer_alone (htraces : Traces start e sketch) (hstrangers : Strangers start)
    (hstanding : sketch.standing side = .alone) {link : Link}
    (hkey : link.identity.publicKey = start.key side.other)
    (hline : link.line = e.line side dialer)
    (hendpoint : ∀ peer ∈ (start.pool side).members, peer.endpoint ≠ link.endpoint) :
    Traces start (e.offer side dialer link)
      ((sketch.setFate side dialer .added).setStanding side (.linked dialer)) := by
  have hself := htraces.publicKey_ne_localKey hstrangers hkey
  have hunknown := htraces.withKey?_of_alone hstrangers hstanding
  have hnobody := htraces.atEndpoint?_of_alone hstanding hendpoint
  rw [← hkey] at hunknown
  rw [Encounter.offer, World.addPeer_added hself hunknown hnobody]
  have hstands := htraces.stands side
  rw [hstanding] at hstands
  cases hstands with
  | alone hmembers hnext =>
      have hjoined : Joined (start.pool side)
          ((e.pool side).enroll link (e.world side).net.clock) (start.key side.other)
          (Peer.start (e.pool side).nextId link (e.pool side).policy.link) :=
        ⟨by simp [Pool.enroll, Pool.tell, hmembers], hkey, hnext⟩
      refine (htraces.repool rfl rfl (.linked hjoined rfl ?_)).settle _
      rw [← hline]
      rfl

/-- A node whose peer has lost its session resumes the peer on a link to the other one. -/
theorem offer_waiting (htraces : Traces start e sketch) (hstrangers : Strangers start)
    (hstanding : sketch.standing side = .waiting) {link : Link}
    (hkey : link.identity.publicKey = start.key side.other)
    (hline : link.line = e.line side dialer) :
    Traces start (e.offer side dialer link)
      ((sketch.setFate side dialer .resumed).setStanding side (.linked dialer)) := by
  have hself := htraces.publicKey_ne_localKey hstrangers hkey
  have hfirst := hstrangers.unacquainted side
  have hstands := htraces.stands side
  rw [hstanding] at hstands
  cases hstands with
  | @waiting peer hjoined hstate hsession =>
      have hpeer := hjoined.withKey? hfirst
      rw [← hkey] at hpeer
      obtain ⟨adopted, hadopt, hadopted⟩ : ∃ adopted, peer.adopt link.line = some adopted ∧
          adopted.identity = peer.identity ∧ adopted.id = peer.id ∧
            adopted.state = .connected ∧ adopted.session.map (·.line) = some link.line := by
        simp [Peer.adopt, Peer.install, hstate]
      obtain ⟨hidentity, hid, hconnected, hlinked⟩ := hadopted
      rw [Encounter.offer, World.addPeer_resumed hself hpeer hadopt]
      have hchanged := hjoined.change hfirst hidentity hid
      rw [hline] at hlinked
      exact (htraces.repool rfl rfl (.linked hchanged hconnected hlinked)).settle _

/-- A node that is linked to the other one refuses a link to it. -/
theorem offer_linked (htraces : Traces start e sketch) (hstrangers : Strangers start)
    {linked : Side} (hstanding : sketch.standing side = .linked linked)
    (hopened : (sketch.passage dialer).IsOpened) {link : Link}
    (hkey : link.identity.publicKey = start.key side.other)
    (hline : link.line = e.line side dialer) :
    Traces start (e.offer side dialer link)
      ((sketch.setFate side dialer .refused).setShut side dialer) := by
  have hself := htraces.publicKey_ne_localKey hstrangers hkey
  have hfirst := hstrangers.unacquainted side
  have hstands := htraces.stands side
  rw [hstanding] at hstands
  cases hstands with
  | @linked _ peer hjoined hstate hsession =>
      have hpeer := hjoined.withKey? hfirst
      rw [← hkey] at hpeer
      have hadopt : peer.adopt link.line = none := by
        simp [Peer.adopt, Peer.install, hstate]
      rw [Encounter.offer, World.addPeer_refused hself hpeer hadopt]
      exact (htraces.close (by rw [hline]) hopened).settle _

/-- **A link that is offered to a pool does what the rules say**, however the node stands. -/
theorem offer (htraces : Traces start e sketch) (hrules : sketch.Rules)
    (hstrangers : Strangers start) (hanswered : sketch.passage dialer = .answered)
    (hpending : sketch.fate side dialer = .pending) {link : Link}
    (hkey : link.identity.publicKey = start.key side.other)
    (hline : link.line = e.line side dialer)
    (hendpoint : ∀ peer ∈ (start.pool side).members, peer.endpoint ≠ link.endpoint) :
    ∃ after, Traces start (e.offer side dialer link) after ∧ after.Rules := by
  cases hstanding : sketch.standing side with
  | alone =>
      exact ⟨_, htraces.offer_alone hstrangers hstanding hkey hline hendpoint,
        hrules.add hanswered hpending hstanding⟩
  | waiting =>
      exact ⟨_, htraces.offer_waiting hstrangers hstanding hkey hline,
        hrules.resume hanswered hpending hstanding⟩
  | linked linked =>
      have hopened : (sketch.passage dialer).IsOpened := by
        rw [hanswered]
        trivial
      exact ⟨_, htraces.offer_linked hstrangers hstanding hopened hkey hline,
        hrules.refuse hanswered hpending hstanding⟩

/-- A node finds out that the connection that links it was closed. -/
theorem deliver (htraces : Traces start e sketch) (hrules : sketch.Rules)
    (hstrangers : Strangers start) (hanswered : sketch.passage dialer = .answered)
    (hshut : sketch.shut side.other dialer = true) {peer lost : Peer} {stale : Option Nat}
    (hpeer : (e.pool side).withKey? (start.key side.other) = some peer)
    (hline : peer.session.map (·.line) = some (e.line side dialer))
    (hlose : peer.lose = some (stale, lost)) :
    ∃ after, Traces start (e.act side fun world =>
      (world.withPool (·.change peer.id fun _ => lost)).withNet fun net =>
        stale.elim net net.close) after ∧ after.Rules := by
  obtain ⟨hlinked, hstate, hjoined⟩ :=
    htraces.linked_of_session hrules hstrangers hanswered hpeer hline
  obtain ⟨rfl, rfl⟩ : stale = some (e.line side dialer) ∧
      lost = { peer with session := none, state := .reconnecting } := by
    simpa [Peer.lose, Peer.takeSession, hstate, hline, eq_comm] using hlose
  have hopened : (sketch.passage dialer).IsOpened := by
    rw [hanswered]
    trivial
  refine ⟨_, ?_, hrules.lose hanswered hlinked hshut⟩
  -- first the pool changes, then the line is closed
  let lost : Peer := { peer with session := none, state := .reconnecting }
  have hchanged : Joined (start.pool side) ((e.pool side).change peer.id fun _ => lost)
      (start.key side.other) lost := hjoined.change (hstrangers.unacquainted side) rfl rfl
  have hrepooled : Traces start (e.act side (·.withPool (·.change peer.id fun _ => lost)))
      (sketch.setStanding side .waiting) := htraces.repool rfl rfl (.waiting hchanged rfl rfl)
  have hclosed : Traces start ((e.act side (·.withPool (·.change peer.id fun _ => lost))).act side
      (·.withNet (·.close (e.line side dialer))))
      ((sketch.setStanding side .waiting).setShut side dialer) :=
    hrepooled.close (by simp [line]) hopened
  rwa [act_act] at hclosed

/-- **Every step of an encounter of strangers is one that the rules allow.** -/
theorem step (htraces : Traces start e sketch) (hrules : sketch.Rules)
    (hstrangers : Strangers start) (hstep : Step e next) :
    ∃ after, Traces start next after ∧ after.Rules := by
  cases hstep with
  | @spare dialer peer hpassage hmember =>
      rw [htraces.passage] at hpassage
      have hstanding : sketch.standing dialer ≠ .alone := by
        intro halone
        have hunknown := htraces.unknown_target hstrangers dialer
        rw [htraces.atEndpoint?_of_alone halone hunknown] at hmember
        exact absurd hmember nofun
      exact ⟨_, htraces.pass nofun, hrules.spare hpassage hstanding⟩
  | @dial dialer hpassage hmember =>
      rw [htraces.passage] at hpassage
      refine ⟨_, htraces.dial hpassage fun side hlinked => ?_, hrules.dial hpassage⟩
      exact absurd (hpassage.symm.trans (hrules.answered_of_linked hlinked)) nofun
  | @turnAway dialer cause hpassage hadmission =>
      rw [htraces.passage] at hpassage
      have hstanding : sketch.standing dialer.other ≠ .alone := by
        intro halone
        have hwelcome := htraces.admission_of_alone hstrangers halone
        exact absurd (hadmission.symm.trans hwelcome) nofun
      have hopened : (sketch.passage dialer).IsOpened := by
        rw [hpassage]
        trivial
      have hclosed : Traces start
          (e.act dialer.other (·.withNet (·.close (e.line dialer.other dialer))))
          (sketch.setShut dialer.other dialer) := htraces.close rfl hopened
      exact ⟨_, hclosed.pass fun _ => hopened, hrules.turnAway hpassage hstanding⟩
  | @answer dialer identity hpassage hadmission =>
      rw [htraces.passage] at hpassage
      have hopened : (sketch.passage dialer).IsOpened := by
        rw [hpassage]
        trivial
      exact ⟨_, htraces.pass fun _ => hopened, hrules.answer hpassage⟩
  | @accept dialer identity hpassage houtcome hverify =>
      rw [htraces.passage] at hpassage
      have hpending : sketch.fate dialer.other dialer = .pending := by
        rw [← htraces.fate, Connection.fate, houtcome]
      have hidentity := (Handshaker.verify_eq_ok_iff.1 hverify).2.2.2.symm
      rw [htraces.greeting_eq] at hidentity
      subst hidentity
      refine htraces.offer hrules hstrangers hpassage hpending ?_ rfl
        (htraces.unknown_origin hstrangers dialer)
      rw [Side.other_other]
      rfl
  | @complete dialer identity hpassage houtcome hverify =>
      rw [htraces.passage] at hpassage
      have hpending : sketch.fate dialer dialer = .pending := by
        rw [← htraces.fate, Connection.fate, houtcome]
      have hidentity := (Handshaker.verify_eq_ok_iff.1 hverify).2.2.2.symm
      rw [htraces.answer_eq] at hidentity
      subst hidentity
      exact htraces.offer hrules hstrangers hpassage hpending rfl rfl
        (htraces.unknown_target hstrangers dialer)
  | @mistrust dialer cause hpassage houtcome hverify =>
      rw [htraces.verify_answer hstrangers] at hverify
      exact absurd hverify nofun
  | @miss dialer hpassage houtcome =>
      rw [htraces.passage] at hpassage
      have hopened : (sketch.passage dialer).IsOpened := by
        rw [hpassage]
        trivial
      have hclosed : Traces start (e.act dialer (·.withNet (·.close (e.line dialer dialer))))
          (sketch.setShut dialer dialer) := htraces.close rfl hopened
      exact ⟨_, hclosed.settle _, hrules.fail hpassage⟩
  | @deliver side dialer peer lost stale hpassage hshut hpeer hline hlose =>
      rw [htraces.passage] at hpassage
      rw [htraces.key_eq] at hpeer
      rw [htraces.shut _ _ (by rw [hpassage]; trivial)] at hshut
      exact htraces.deliver hrules hstrangers hpassage hshut hpeer hline hlose

end Traces

/-- The sketch of an encounter that has not begun. -/
def blank : Sketch where
  passage := fun _ => .unused
  fate := fun _ _ => .pending
  standing := fun _ => .alone
  shut := fun _ _ => false

theorem Strangers.traces (hstrangers : Strangers start) : Traces start start blank where
  same := fun _ => ⟨rfl, rfl, rfl, rfl, rfl, rfl⟩
  passage := fun dialer => by rw [hstrangers.unused]; rfl
  fate := fun side dialer => by rw [hstrangers.unused]; rfl
  shut := fun _ _ hopened => hopened.elim
  known := fun _ _ hopened => hopened.elim
  apart := fun _ _ hopened => hopened.elim
  stands := fun _ => .alone rfl rfl

theorem blank_rules : blank.Rules where
  course := fun _ => .alone fun _ => Or.inl rfl
  fits := fun _ _ => rfl
  taken := fun _ _ htook => htook.elim nofun nofun
  closed := nofun
  kept := fun _ _ hpassage => hpassage.elim nofun nofun
  dropped := fun _ hpassage => hpassage.elim nofun nofun

/-- **An encounter of strangers is traced by a sketch that keeps to the rules.** -/
theorem Strangers.traced (hstrangers : Strangers start) (hrun : Run start e) :
    ∃ sketch, Traces start e sketch ∧ sketch.Rules := by
  induction hrun with
  | refl => exact ⟨blank, hstrangers.traces, blank_rules⟩
  | step hrun hstep ih =>
      obtain ⟨sketch, htraces, hrules⟩ := ih
      exact htraces.step hrules hstrangers hstep

end Encounter

end Overlay
