import Mathlib.Logic.Function.Basic
import Overlay.Proofs.Pool.Regrouping
import Overlay.Proofs.Pool.Sections

/-!
# Upkeeps and exchanges at the same time

A pool has a flag for an upkeep and one for the exchange of peers.  A call first
looks at the flag of the other kind, and then claims its own: two sections.  At
most one call is inside an upkeep, and at most one inside an exchange.  Both
kinds may be inside at once (`FlagRace.both_inside`), but only if each had looked
before the other claimed (`FlagRace.alone_or_raced`).
-/

namespace Overlay

open Wire

/-- What is claimed while an upkeep or an exchange is under way. -/
inductive Flag
  | upkeep
  | exchange
  deriving DecidableEq

namespace Flag

def other : Flag → Flag
  | .upkeep => .exchange
  | .exchange => .upkeep

/-- Whether a flag is claimed. -/
def up (world : World) : Flag → Bool
  | .upkeep => world.pool.maintaining
  | .exchange => world.pool.receiving

def put (claimed : Bool) : Flag → Pool → Pool
  | .upkeep, pool => { pool with maintaining := claimed }
  | .exchange, pool => { pool with receiving := claimed }

/-- Nothing is held. -/
def nothing (_ : Flag) : Bool :=
  false

/-- Only one flag is held. -/
def only (held flag : Flag) : Bool :=
  flag = held

variable {world : World} {claimed : Bool} {flag : Flag}

theorem up_put (world : World) (claimed : Bool) (flag other : Flag) :
    other.up (world.withPool (flag.put claimed)) =
      if other = flag then claimed else other.up world := by
  cases flag <;> cases other <;> rfl

end Flag

namespace Procedure

variable {α β : Type} {held : Flag → Bool} {world after : World} {flag : Flag}

/-- The next section of a call claims a flag, whether or not it is claimed already. -/
def Claims (flag : Flag) (call : Procedure α) : Prop :=
  ∃ f next, call = .act f next ∧ ∀ world, flag.up (f world) = true

/-- What of the flags a call holds after a section.  A flag that the section has changed was claimed
or released by it. -/
def hold (held : Flag → Bool) (before after : World) (flag : Flag) : Bool :=
  if flag.up after = flag.up before then held flag else flag.up after

/-- What a call that holds some flags keeps to.  It claims a flag only after it has seen that the
other one is not claimed, releases none that it does not hold, and holds none at the end. -/
def Guarded : (Flag → Bool) → Procedure α → Prop
  | held, .done _ => held = Flag.nothing
  | held, .act f next => ∀ world, (∀ flag, held flag = true → flag.up world = true) →
      (∀ flag, flag.up (f world) ≠ flag.up world → held flag = true ∨ ∀ any, flag.up (f any) = true) ∧
      (∀ flag, (next world).Claims flag → flag.other.up (f world) = false) ∧
      (next world).Guarded (hold held world (f world))
  | held, .offer _ next => ∀ result, (∀ flag, ¬ (next result).Claims flag) ∧
      (next result).Guarded held
  | held, .dial _ next => ∀ outcome, (∀ flag, ¬ (next outcome).Claims flag) ∧
      (next outcome).Guarded held

/-- A call whose next section claims nothing. -/
structure Calm (held : Flag → Bool) (call : Procedure α) : Prop where
  quiet : ∀ flag, ¬ call.Claims flag
  guarded : call.Guarded held

/-- No section that is left changes a flag. -/
def Plain : Procedure α → Prop
  | .done _ => True
  | .act f next => ∀ world,
      (∀ flag : Flag, flag.up (f world) = flag.up world) ∧ (next world).Plain
  | .offer _ next => ∀ result, (next result).Plain
  | .dial _ next => ∀ outcome, (next outcome).Plain

theorem hold_same (hflags : ∀ flag : Flag, flag.up after = flag.up world) :
    hold held world after = held :=
  funext fun flag => if_pos (hflags flag)

theorem not_claims_done (result : α) : ¬ (done result).Claims flag := by
  rintro ⟨f, next, ⟨⟩, -⟩

/-- A section that leaves a flag does not claim it. -/
theorem not_claims_act {f : World → World} {next : World → Procedure α}
    (hdown : ∃ world, flag.up (f world) = false) : ¬ (act f next).Claims flag := by
  rintro ⟨_, _, ⟨⟩, hclaims⟩
  obtain ⟨world, hdown⟩ := hdown
  rw [hclaims world] at hdown
  exact absurd hdown nofun

theorem exists_down (flag : Flag) : ∃ world : World, flag.up world = false :=
  ⟨{ pool := {} }, by cases flag <;> rfl⟩

theorem Plain.quiet {call : Procedure α} (hplain : call.Plain) (flag : Flag) :
    ¬ call.Claims flag := by
  cases call with
  | done result => exact not_claims_done result
  | act f next =>
      obtain ⟨world, hdown⟩ := exists_down flag
      exact not_claims_act ⟨world, ((hplain world).1 flag).trans hdown⟩
  | offer link next => rintro ⟨f, next, ⟨⟩, -⟩
  | dial e next => rintro ⟨f, next, ⟨⟩, -⟩

theorem plain_bind {call : Procedure α} {next : α → Procedure β} (hplain : call.Plain)
    (hnext : ∀ result, (next result).Plain) : (call >>= next).Plain := by
  show (call.bind next).Plain
  induction call with
  | done result => exact hnext result
  | act f rest ih => exact fun world => ⟨(hplain world).1, ih world (hplain world).2⟩
  | offer link rest ih => exact fun result => ih result (hplain result)
  | dial e rest ih => exact fun outcome => ih outcome (hplain outcome)

/-- What leaves the flags may stand in front of anything that is calm. -/
theorem calm_bind {call : Procedure α} {next : α → Procedure β} (hplain : call.Plain)
    (hnext : ∀ result, (next result).Calm held) : (call >>= next).Calm held := by
  show (call.bind next).Calm held
  induction call with
  | done result => exact hnext result
  | act f rest ih =>
      refine ⟨fun flag => ?_, fun world _ => ?_⟩
      · obtain ⟨world, hdown⟩ := exists_down flag
        exact not_claims_act ⟨world, ((hplain world).1 flag).trans hdown⟩
      · obtain ⟨hflags, hrest⟩ := hplain world
        obtain ⟨hquiet, hguarded⟩ := ih world hrest
        rw [hold_same hflags]
        exact ⟨fun flag hchanged => absurd (hflags flag) hchanged,
          fun flag hclaims => absurd hclaims (hquiet flag), hguarded⟩
  | offer link rest ih =>
      refine ⟨fun flag => ?_, fun result => ?_⟩
      · rintro ⟨f, next, ⟨⟩, -⟩
      · exact ⟨(ih result (hplain result)).quiet, (ih result (hplain result)).guarded⟩
  | dial e rest ih =>
      refine ⟨fun flag => ?_, fun outcome => ?_⟩
      · rintro ⟨f, next, ⟨⟩, -⟩
      · exact ⟨(ih outcome (hplain outcome)).quiet, (ih outcome (hplain outcome)).guarded⟩

theorem bind_bind {γ : Type} (call : Procedure α) (next : α → Procedure β) (last : β → Procedure γ) :
    (call.bind next).bind last = call.bind fun result => (next result).bind last := by
  induction call with
  | done result => rfl
  | act f rest ih => exact congrArg (act f) (funext fun world => ih world)
  | offer link rest ih => exact congrArg (offer link) (funext fun result => ih result)
  | dial e rest ih => exact congrArg (dial e) (funext fun outcome => ih outcome)

theorem calm_pure (result : α) : (pure result : Procedure α).Calm Flag.nothing :=
  ⟨fun _ => not_claims_done result, rfl⟩

/-- The next section of a call that goes on is that of the call, unless the call has ended. -/
theorem claims_bind {call : Procedure α} {next : α → Procedure β}
    (hclaims : (call.bind next).Claims flag) :
    call.Claims flag ∨ ∃ result, call = .done result ∧ (next result).Claims flag := by
  cases call with
  | done result => exact Or.inr ⟨result, rfl, hclaims⟩
  | act f rest =>
      obtain ⟨_, _, ⟨⟩, hup⟩ := hclaims
      exact Or.inl ⟨f, rest, rfl, hup⟩
  | offer link rest =>
      obtain ⟨_, _, ⟨⟩, -⟩ := hclaims
  | dial e rest =>
      obtain ⟨_, _, ⟨⟩, -⟩ := hclaims

theorem not_claims_bind {call : Procedure α} {next : α → Procedure β}
    (hquiet : ¬ call.Claims flag) (hnext : ∀ result, ¬ (next result).Claims flag) :
    ¬ (call.bind next).Claims flag := by
  intro hclaims
  rcases claims_bind hclaims with hclaims | ⟨result, -, hclaims⟩
  · exact hquiet hclaims
  · exact hnext result hclaims

theorem guarded_bind {call : Procedure α} {next : α → Procedure β} (hguarded : call.Guarded held)
    (hnext : ∀ result, (next result).Calm Flag.nothing) : (call.bind next).Guarded held := by
  induction call generalizing held with
  | done result =>
      obtain rfl : held = Flag.nothing := hguarded
      exact (hnext result).guarded
  | act f rest ih =>
      intro world hheld
      obtain ⟨hchanged, hclaims, hrest⟩ := hguarded world hheld
      refine ⟨hchanged, fun flag hbound => ?_, ih world hrest⟩
      rcases claims_bind hbound with hrest | ⟨result, -, hafter⟩
      · exact hclaims flag hrest
      · exact absurd hafter ((hnext result).quiet flag)
  | offer link rest ih =>
      exact fun result => ⟨fun flag => not_claims_bind ((hguarded result).1 flag)
        fun value => (hnext value).quiet flag, ih result (hguarded result).2⟩
  | dial e rest ih =>
      exact fun outcome => ⟨fun flag => not_claims_bind ((hguarded outcome).1 flag)
        fun value => (hnext value).quiet flag, ih outcome (hguarded outcome).2⟩

/-- A call that ends with nothing held may be followed by one that begins with nothing. -/
theorem calm_andThen {call : Procedure α} {next : α → Procedure β} (hcalm : call.Calm held)
    (hnext : ∀ result, (next result).Calm Flag.nothing) : (call >>= next).Calm held :=
  ⟨fun flag => not_claims_bind (hcalm.quiet flag) fun result => (hnext result).quiet flag,
    guarded_bind hcalm.guarded hnext⟩

theorem up_addPeer (world : World) (link : Link) (flag : Flag) :
    flag.up (world.addPeer link).2 = flag.up world := by
  rcases world.addPeer_cases link with ⟨-, -, -, hadded⟩ | ⟨-, peer, adopted, -, -, hresumed⟩ |
    ⟨hclosed, -⟩
  · rw [hadded]
    cases flag <;> rfl
  · rw [hresumed]
    cases flag <;> rfl
  · rw [hclosed]
    cases flag <;> rfl

/-- What a section of a guarded call does to the flags.  One that it changes the call held or
claims. -/
structure Minds (held : Flag → Bool) (world : World) (call next : Procedure α) (after : World) :
    Prop where
  changed : ∀ flag : Flag, flag.up after ≠ flag.up world →
    held flag = true ∨ call.Claims flag ∧ flag.up after = true
  looked : ∀ flag, next.Claims flag → flag.other.up after = false
  guarded : next.Guarded (hold held world after)

theorem minds_same {call next : Procedure α} (hflags : ∀ flag : Flag, flag.up after = flag.up world)
    (hnext : (∀ flag, ¬ next.Claims flag) ∧ next.Guarded held) :
    Minds held world call next after where
  changed flag hchanged := absurd (hflags flag) hchanged
  looked flag hclaims := absurd hclaims (hnext.1 flag)
  guarded := by
    rw [hold_same hflags]
    exact hnext.2

theorem Guarded.minds {call next : Procedure α} (hguarded : call.Guarded held)
    (hheld : ∀ flag, held flag = true → flag.up world = true)
    (hsection : Section world call next after) : Minds held world call next after := by
  cases hsection with
  | @act f next =>
      obtain ⟨hchanged, hlooked, hnext⟩ := hguarded world hheld
      refine ⟨fun flag hflag => ?_, hlooked, hnext⟩
      exact (hchanged flag hflag).imp_right fun hup => ⟨⟨f, next, rfl, hup⟩, hup world⟩
  | offer => exact minds_same (up_addPeer world _) (hguarded _)
  | unstarted hadded cause => exact minds_same (fun flag => by cases flag <;> rfl) (hguarded _)
  | unopened hresumed cause => exact minds_same (fun _ => rfl) (hguarded _)
  | dial outcome => exact minds_same (fun _ => rfl) (hguarded outcome)

/-! ## Entering and leaving -/

def claimFlag : Flag → Procedure Bool
  | .upkeep => claimUpkeep
  | .exchange => claimExchange

def releaseFlag : Flag → Procedure Unit
  | .upkeep => releaseUpkeep
  | .exchange => releaseExchange

theorem claimFlag_eq (flag : Flag) :
    claimFlag flag = .act (·.withPool (flag.put true)) fun world => .done !flag.up world := by
  cases flag <;> rfl

theorem releaseFlag_eq (flag : Flag) :
    releaseFlag flag = .act (·.withPool (flag.put false)) fun _ => .done () := by
  cases flag <;> rfl

/-- Whoever holds a flag may release it. -/
theorem calm_release {next : Procedure α} (hnext : next.Calm Flag.nothing) :
    (releaseFlag flag >>= fun _ => next).Calm (Flag.only flag) := by
  rw [releaseFlag_eq]
  refine ⟨fun other => not_claims_act ?_, fun world hheld => ⟨fun other hchanged => ?_,
    fun other hclaims => absurd hclaims (hnext.quiet other), ?_⟩⟩
  · obtain ⟨world, hdown⟩ := exists_down other
    refine ⟨world, ?_⟩
    rw [Flag.up_put, hdown, ite_self]
  · rw [Flag.up_put] at hchanged
    by_cases hsame : other = flag
    · exact Or.inl (decide_eq_true hsame)
    · exact absurd (if_neg hsame) hchanged
  · have hreleased : hold (Flag.only flag) world (world.withPool (flag.put false)) =
        Flag.nothing := by
      funext other
      rw [hold, Flag.up_put]
      by_cases hsame : other = flag
      · subst hsame
        simp [hheld other (decide_eq_true rfl), Flag.nothing]
      · simp [hsame, Flag.only, Flag.nothing]
    rw [hreleased]
    exact hnext.guarded

/-- A claim that is granted goes on with the flag held, and one that is refused ends. -/
theorem guarded_claim {body : Procedure α} (hbody : body.Calm (Flag.only flag)) (skipped : α) :
    (claimFlag flag >>= fun claimed => if claimed then body else pure skipped).Guarded
      Flag.nothing := by
  rw [claimFlag_eq]
  intro world _
  have hnext : ∀ other, ¬ (if (!flag.up world) = true then body else pure skipped).Claims other := by
    intro other
    split
    · exact hbody.quiet other
    · exact not_claims_done skipped
  refine ⟨fun other hchanged => Or.inr fun any => ?_, fun other hclaims =>
    absurd hclaims (hnext other), ?_⟩
  · rw [Flag.up_put] at hchanged ⊢
    exact if_pos (by_contra fun hother => hchanged (if_neg hother))
  · show (if (!flag.up world) = true then body else pure skipped).Guarded _
    cases hup : flag.up world with
    | true =>
        have hkept : ∀ other : Flag, other.up (world.withPool (flag.put true)) = other.up world := by
          intro other
          rw [Flag.up_put]
          split_ifs with hsame
          · rw [hsame, hup]
          · rfl
        rw [hold_same hkept]
        exact rfl
    | false =>
        have hheld : hold Flag.nothing world (world.withPool (flag.put true)) = Flag.only flag := by
          funext other
          rw [hold, Flag.up_put, Flag.only]
          by_cases hsame : other = flag
          · simp [hsame, hup]
          · simp [hsame, Flag.nothing]
        rw [hheld]
        exact hbody.guarded

/-- Whoever has seen that the other flag is not claimed may claim a flag. -/
theorem calm_enter {body : Procedure α} (hbody : body.Calm (Flag.only flag)) (skipped : α) :
    (look >>= fun world =>
      if flag.other.up world then pure skipped
      else claimFlag flag >>= fun claimed => if claimed then body else pure skipped).Calm
        Flag.nothing := by
  refine ⟨fun claimed => not_claims_act (exists_down claimed), fun world _ => ⟨?_, ?_, ?_⟩⟩
  · exact fun claimed hchanged => absurd rfl hchanged
  · intro claimed hclaims
    change Claims claimed (if flag.other.up world then pure skipped else _) at hclaims
    split at hclaims
    · exact absurd hclaims (not_claims_done skipped)
    · next hdown =>
      rw [claimFlag_eq] at hclaims
      obtain ⟨_, _, ⟨⟩, hup⟩ := hclaims
      obtain ⟨other, hother⟩ := exists_down claimed
      have hsame := hup other
      rw [Flag.up_put, hother] at hsame
      rw [show claimed = flag from by_contra fun hne => by simp [hne] at hsame]
      exact Bool.eq_false_iff.2 hdown
  · rw [show hold Flag.nothing world (id world) = Flag.nothing from hold_same fun _ => rfl]
    show Guarded _ (if flag.other.up world then pure skipped else _)
    split
    · exact rfl
    · exact guarded_claim hbody skipped

/-! ## Sections that leave the flags -/

theorem plain_pure (result : α) : (pure result : Procedure α).Plain :=
  trivial

theorem plain_look : look.Plain :=
  fun _ => ⟨fun _ => rfl, trivial⟩

theorem plain_alter {f : Pool → Pool} (hkept : ∀ pool, (f pool).maintaining = pool.maintaining ∧
    (f pool).receiving = pool.receiving) : (alter f).Plain := by
  refine fun world => ⟨fun flag => ?_, trivial⟩
  cases flag
  · exact (hkept world.pool).1
  · exact (hkept world.pool).2

/-- What only concerns members leaves the flags. -/
theorem Regroups.plain {call : Procedure α} (hregroups : call.Regroups) : call.Plain := by
  induction call with
  | done result => exact trivial
  | act f next ih =>
      intro world
      obtain ⟨⟨members, store, exchanges, told, verdicts, tickets, hpool⟩, hnext⟩ := hregroups world
      refine ⟨fun flag => ?_, ih world hnext⟩
      cases flag
      · exact congrArg (·.maintaining) hpool
      · exact congrArg (·.receiving) hpool
  | offer link next ih => exact fun result => ih result (hregroups result)
  | dial e next ih => exact fun outcome => ih outcome (hregroups outcome)

/-! ## Calls -/

theorem plain_bootstrapFrom (endpoints : List Endpoint) : (bootstrapFrom endpoints).Plain := by
  induction endpoints with
  | nil => exact plain_pure none
  | cons e rest ih =>
      refine plain_bind (regroups_connect e).plain fun result => ?_
      cases result with
      | ok admission =>
          refine plain_bind (plain_alter fun pool => ?_) fun _ => plain_pure _
          split <;> exact ⟨rfl, rfl⟩
      | error cause =>
          refine plain_bind (plain_alter fun pool => ?_) fun _ => ih
          split <;> exact ⟨rfl, rfl⟩

theorem plain_bootstrap : bootstrap.Plain :=
  plain_bind plain_look fun _ => plain_bind plain_look fun _ => plain_bootstrapFrom _

theorem plain_anchor (report : UpkeepReport) : (anchor report).Plain := by
  refine plain_bind plain_look fun world => ?_
  split
  · exact plain_bind plain_bootstrap fun _ => plain_pure _
  · refine plain_bind plain_look fun world => ?_
    dsimp only
    split
    · exact plain_bind regroups_releaseBootNode.plain fun _ => plain_pure _
    · exact plain_pure report

theorem plain_joinAll (endpoints : List Endpoint) : (joinAll endpoints).Plain := by
  induction endpoints with
  | nil => exact plain_pure 0
  | cons e rest ih =>
      refine plain_bind plain_look fun world => ?_
      dsimp only
      split
      · exact ih
      · refine plain_bind (plain_alter fun _ => ⟨rfl, rfl⟩) fun _ => ?_
        refine plain_bind (regroups_connect e).plain fun result => plain_bind ih fun count => ?_
        split <;> exact plain_pure _

theorem plain_handle (event : PeerEvent) : (handle event).Plain := by
  cases event with
  | message id message => exact (regroups_handleMessage id message).plain
  | reconnected id => exact plain_pure ()
  | unreachable id cause =>
      refine plain_bind plain_look fun world => ?_
      cases world.pool.member? id with
      | none => exact plain_bind (regroups_takePeer id false true).plain fun _ => plain_pure ()
      | some peer =>
          refine plain_bind (plain_alter fun _ => ⟨rfl, rfl⟩) fun _ => ?_
          exact plain_bind (regroups_takePeer id false true).plain fun _ => plain_pure ()

/-- An upkeep that asks for more peers has released its flag before, and any other still holds it. -/
theorem calm_balance (report : UpkeepReport) {next : UpkeepReport × Bool → Procedure α}
    (hended : ∀ report, (next (report, true)).Calm Flag.nothing)
    (hgoing : ∀ report, (next (report, false)).Calm (Flag.only .upkeep)) :
    (balance report >>= next).Calm (Flag.only .upkeep) := by
  refine @calm_bind _ _ _ look _ plain_look fun world => ?_
  show ((if world.pool.members.length < world.pool.policy.target then _ else _ :
    Procedure (UpkeepReport × Bool)).bind next).Calm _
  split
  · refine @calm_release _ .upkeep _ ?_
    exact calm_bind (regroups_broadcast _).plain fun _ => hended _
  · refine @calm_bind _ _ _ look _ plain_look fun world => ?_
    show (((removeAll _).bind _).bind next).Calm _
    rw [bind_bind]
    exact calm_bind (regroups_removeAll _).plain fun _ => hgoing _

/-- An upkeep claims its flag, and releases it before it asks for more peers or at the end. -/
theorem calm_maintain : maintain.Calm Flag.nothing := by
  refine @calm_enter _ .upkeep _ ?_ Option.none
  refine calm_bind (plain_anchor {}) fun report =>
    calm_balance report (fun report => ?_) fun report => ?_
  · exact calm_bind regroups_removeDuplicates.plain fun duplicates => calm_pure _
  · exact calm_bind regroups_removeDuplicates.plain fun duplicates => calm_release (calm_pure _)

theorem calm_receivePeers (endpoints : List Endpoint) :
    (receivePeers endpoints).Calm Flag.nothing := by
  refine @calm_enter _ .exchange _ ?_ 0
  refine calm_bind (plain_joinAll endpoints) fun count => ?_
  exact calm_release (calm_pure count)

end Procedure

theorem Task.calm (task : Task) : task.procedure.Calm Flag.nothing := by
  open Procedure in
  cases task with
  | add link =>
      refine ⟨fun flag => ?_, fun result => ⟨fun flag => not_claims_done _, rfl⟩⟩
      rintro ⟨f, next, ⟨⟩, -⟩
  | connect e => exact calm_bind (regroups_connect e).plain fun _ => calm_pure _
  | remove id => exact calm_bind (regroups_takePeer id true true).plain fun _ => calm_pure _
  | removeEndpoint e => exact calm_bind (regroups_removeEndpoint e).plain fun _ => calm_pure _
  | removeDuplicates => exact calm_bind regroups_removeDuplicates.plain fun _ => calm_pure _
  | handle event => exact calm_bind (plain_handle event) fun _ => calm_pure _
  | maintain => exact calm_andThen calm_maintain fun _ => calm_pure _
  | receive endpoints => exact calm_andThen (calm_receivePeers endpoints) fun _ => calm_pure _
  | bootstrap => exact calm_bind plain_bootstrap fun _ => calm_pure _
  | shutdown => exact calm_bind regroups_shutdown.plain fun _ => calm_pure _

/-! ## Any number of calls at the same time -/

/-- A call, and which flags it has claimed and not released. -/
structure Caller where
  call : Procedure Report
  held : Flag → Bool := Flag.nothing

/-- A call that is inside the section of a flag, or is about to claim it. -/
def Caller.Nears (caller : Caller) (flag : Flag) : Prop :=
  caller.held flag = true ∨ caller.call.Claims flag

/-- A pool with the calls on it. -/
structure FlagRace where
  world : World
  callers : Nat → Caller

namespace FlagRace

/-- Tasks of which none has begun, on a pool whose flags nobody has claimed. -/
def start (policy : PoolPolicy) (localKey : Bytes) (store : Option PeerStore) (net : Net)
    (tasks : Nat → Task) : FlagRace where
  world := { pool := .empty policy localKey store, net }
  callers i := { call := (tasks i).procedure }

/-- A caller goes through a section. -/
def advance (race : FlagRace) (i : Nat) (next : Procedure Report) (after : World) : FlagRace where
  world := after
  callers := Function.update race.callers i
    { call := next, held := Procedure.hold (race.callers i).held race.world after }

inductive Step (race : FlagRace) : FlagRace → Prop
  | go (i : Nat) {next : Procedure Report} {after : World}
      (hsection : (race.callers i).call.Section race.world next after) :
      Step race (race.advance i next after)
  -- something changes, but no flag
  | meanwhile {after : World} (hflags : ∀ flag : Flag, flag.up after = flag.up race.world) :
      Step race { race with world := after }

inductive Run (first : FlagRace) : FlagRace → Prop
  | rest : Run first first
  | step {race after : FlagRace} (hrun : Run first race) (hstep : race.Step after) : Run first after

/-- A flag that is held is claimed, and one call at most holds it. -/
structure Sound (race : FlagRace) : Prop where
  claimed : ∀ i flag, (race.callers i).held flag = true → flag.up race.world = true
  single : ∀ i j flag, (race.callers i).held flag = true → (race.callers j).held flag = true → i = j
  guarded : ∀ i, (race.callers i).call.Guarded (race.callers i).held

variable {policy : PoolPolicy} {localKey : Bytes} {store : Option PeerStore} {net : Net}
  {tasks : Nat → Task} {first race after : FlagRace}

theorem sound_start : (start policy localKey store net tasks).Sound where
  claimed := nofun
  single := nofun
  guarded i := (tasks i).calm.guarded

theorem callers_advance_self (race : FlagRace) (i : Nat) (next : Procedure Report) (after : World) :
    (race.advance i next after).callers i =
      { call := next, held := Procedure.hold (race.callers i).held race.world after } :=
  Function.update_self ..

theorem callers_advance_of_ne {i j : Nat} (hother : j ≠ i) (next : Procedure Report)
    (after : World) :
    (race.advance i next after).callers j = race.callers j :=
  Function.update_of_ne hother ..

theorem Sound.minds (hsound : race.Sound) {i : Nat} {next : Procedure Report} {after : World}
    (hsection : (race.callers i).call.Section race.world next after) :
    Procedure.Minds (race.callers i).held race.world (race.callers i).call next after :=
  (hsound.guarded i).minds (hsound.claimed i) hsection

/-- After a section of one call, another call holds what it held, and this is still claimed. -/
theorem Sound.still (hsound : race.Sound) {i j : Nat} (hother : j ≠ i) {next : Procedure Report}
    {after : World} (hsection : (race.callers i).call.Section race.world next after) {flag : Flag}
    (hheld : (race.callers j).held flag = true) : flag.up after = true := by
  by_cases hsame : flag.up after = flag.up race.world
  · exact hsame.trans (hsound.claimed j flag hheld)
  · rcases (hsound.minds hsection).changed flag hsame with hown | ⟨-, hup⟩
    · exact absurd (hsound.single j i flag hheld hown) hother
    · exact hup

/-- A call that holds a flag after a section held it before, or nobody did. -/
theorem held_of_hold {held : Flag → Bool} {world after : World} {flag : Flag}
    (hheld : Procedure.hold held world after flag = true) :
    flag.up after = flag.up world ∧ held flag = true ∨
      flag.up after = true ∧ flag.up world = false := by
  rw [Procedure.hold] at hheld
  split_ifs at hheld with hsame
  · exact Or.inl ⟨hsame, hheld⟩
  · exact Or.inr ⟨hheld, by simpa [hheld] using Ne.symm hsame⟩

theorem Sound.advance (hsound : race.Sound) {i : Nat} {next : Procedure Report} {after : World}
    (hsection : (race.callers i).call.Section race.world next after) :
    (race.advance i next after).Sound := by
  -- nobody else holds what a call holds after its section
  have hsingle : ∀ j flag, j ≠ i →
      Procedure.hold (race.callers i).held race.world after flag = true →
      (race.callers j).held flag ≠ true := by
    intro j flag hother hown hheld
    rcases held_of_hold hown with ⟨-, hbefore⟩ | ⟨-, hdown⟩
    · exact hother (hsound.single j i flag hheld hbefore)
    · exact absurd (hsound.claimed j flag hheld) (by simp [hdown])
  refine ⟨fun j flag hheld => ?_, fun j k flag hj hk => ?_, fun j => ?_⟩
  · by_cases hother : j = i
    · subst hother
      rw [callers_advance_self] at hheld
      rcases held_of_hold hheld with ⟨hsame, hbefore⟩ | ⟨hup, -⟩
      · exact hsame.trans (hsound.claimed j flag hbefore)
      · exact hup
    · rw [callers_advance_of_ne hother] at hheld
      exact hsound.still hother hsection hheld
  · by_cases hji : j = i <;> by_cases hki : k = i
    · rw [hji, hki]
    · subst hji
      rw [callers_advance_self] at hj
      rw [callers_advance_of_ne hki] at hk
      exact absurd hk (hsingle k flag hki hj)
    · subst hki
      rw [callers_advance_of_ne hji] at hj
      rw [callers_advance_self] at hk
      exact absurd hj (hsingle j flag hji hk)
    · rw [callers_advance_of_ne hji] at hj
      rw [callers_advance_of_ne hki] at hk
      exact hsound.single j k flag hj hk
  · by_cases hother : j = i
    · subst hother
      rw [callers_advance_self]
      exact (hsound.minds hsection).guarded
    · rw [callers_advance_of_ne hother]
      exact hsound.guarded j

theorem Step.sound (hstep : race.Step after) (hsound : race.Sound) : after.Sound := by
  cases hstep with
  | go i hsection => exact hsound.advance hsection
  | meanwhile hflags =>
      exact ⟨fun i flag hheld => (hflags flag).trans (hsound.claimed i flag hheld), hsound.single,
        hsound.guarded⟩

theorem sound_of_run (hrun : Run (start policy localKey store net tasks) race) : race.Sound := by
  induction hrun with
  | rest => exact sound_start
  | step _ hstep ih => exact hstep.sound ih

/-- Whoever is inside or about to claim a flag was so before, or has just seen that the other flag
is not claimed. -/
theorem Step.nears (hstep : race.Step after) (hsound : race.Sound) {i : Nat} {flag : Flag}
    (hnears : (after.callers i).Nears flag) :
    (race.callers i).Nears flag ∨
      (after.callers i).call.Claims flag ∧ flag.other.up after.world = false := by
  cases hstep with
  | meanwhile hflags => exact Or.inl hnears
  | @go j next after hsection =>
      by_cases hother : i = j
      · subst hother
        have hminds := hsound.minds hsection
        rw [callers_advance_self] at hnears ⊢
        rcases hnears with hheld | hclaims
        · refine Or.inl ?_
          rcases held_of_hold hheld with ⟨-, hbefore⟩ | ⟨hup, hdown⟩
          · exact Or.inl hbefore
          · exact (hminds.changed flag (by simp [hup, hdown])).imp_right And.left
        · exact Or.inr ⟨hclaims, hminds.looked flag hclaims⟩
      · rw [callers_advance_of_ne hother] at hnears
        exact Or.inl hnears

/-- Two calls that are inside or about to claim, one for an upkeep and one for an exchange, were
about to claim at the same time. -/
theorem raced_of_run (hrun : Run (start policy localKey store net tasks) race) {i j : Nat}
    (hupkeep : (race.callers i).Nears .upkeep) (hexchange : (race.callers j).Nears .exchange) :
    ∃ mid, Run (start policy localKey store net tasks) mid ∧ Run mid race ∧
      (mid.callers i).call.Claims .upkeep ∧ (mid.callers j).call.Claims .exchange := by
  induction hrun with
  | rest =>
      rcases hupkeep with hheld | hclaims
      · exact absurd hheld Bool.false_ne_true
      · exact absurd hclaims ((tasks i).calm.quiet .upkeep)
  | @step race after hrun hstep ih =>
      have hsound := sound_of_run hrun
      have hafter := hstep.sound hsound
      rcases hstep.nears hsound hupkeep with hupkeep' | ⟨hclaims, hdown⟩
      · rcases hstep.nears hsound hexchange with hexchange' | ⟨hclaims, hdown⟩
        · obtain ⟨mid, hfirst, hrest, hboth⟩ := ih hupkeep' hexchange'
          exact ⟨mid, hfirst, hrest.step hstep, hboth⟩
        · -- the exchange has just looked, and so nobody is inside an upkeep
          rcases hupkeep with hheld | hupkeep
          · exact absurd (hafter.claimed i .upkeep hheld) (Bool.eq_false_iff.1 hdown)
          · exact ⟨after, hrun.step hstep, .rest, hupkeep, hclaims⟩
      · rcases hexchange with hheld | hexchange
        · exact absurd (hafter.claimed j .exchange hheld) (Bool.eq_false_iff.1 hdown)
        · exact ⟨after, hrun.step hstep, .rest, hclaims, hexchange⟩

/-- **At most one call is inside an upkeep, and at most one inside an exchange.**  If one of each is
inside at once, there was a point at which both had looked at the flag of the other and neither had
claimed its own. -/
theorem alone_or_raced (hrun : Run (start policy localKey store net tasks) race) :
    (∀ i j flag, (race.callers i).held flag = true → (race.callers j).held flag = true → i = j) ∧
    ∀ i j, (race.callers i).held .upkeep = true → (race.callers j).held .exchange = true →
      ∃ mid, Run (start policy localKey store net tasks) mid ∧ Run mid race ∧
        (mid.callers i).call.Claims .upkeep ∧ (mid.callers j).call.Claims .exchange :=
  ⟨(sound_of_run hrun).single, fun _ _ hupkeep hexchange =>
    raced_of_run hrun (Or.inl hupkeep) (Or.inl hexchange)⟩

/-! ## Schedules -/

/-- A caller goes through its next section, if it has one. -/
def turn (race : FlagRace) (i : Nat) : FlagRace :=
  match (race.callers i).call with
  | .done _ => race
  | call => race.advance i (call.goOn race.world).1 (call.goOn race.world).2

def play (race : FlagRace) (turns : List Nat) : FlagRace :=
  turns.foldl turn race

theorem run_play (turns : List Nat) (hrun : Run first race) : Run first (race.play turns) := by
  induction turns generalizing race with
  | nil => exact hrun
  | cons i rest ih =>
      refine ih ?_
      rw [turn]
      split
      · exact hrun
      · next hmore => exact hrun.step (.go i (Procedure.section_goOn hmore))

/-- Two upkeeps and an exchange. -/
def threeTasks : Nat → Task
  | 0 => .maintain
  | 1 => .maintain
  | _ => .receive []

/-- One upkeep goes on, and the other one and the exchange end when they find it under way. -/
theorem alone_or_raced_refused :
    ∃ race, Run (start {} [0] none {} threeTasks) race ∧
      (race.callers 0).held .upkeep = true ∧
      (race.callers 1).call = .done (.upkeep none) ∧ (race.callers 2).call = .done (.received 0) ∧
      (∀ i j flag, (race.callers i).held flag = true → (race.callers j).held flag = true → i = j) ∧
      ∀ i j, (race.callers i).held .upkeep = true → (race.callers j).held .exchange = true →
        ∃ mid, Run (start {} [0] none {} threeTasks) mid ∧ Run mid race ∧
          (mid.callers i).call.Claims .upkeep ∧ (mid.callers j).call.Claims .exchange := by
  have hrun : Run (start {} [0] none {} threeTasks)
      ((start {} [0] none {} threeTasks).play [0, 1, 0, 1, 2]) := run_play _ .rest
  exact ⟨_, hrun, rfl, rfl, rfl, alone_or_raced hrun⟩

/-- **An upkeep and an exchange are both inside**, when each looks before the other claims. -/
theorem both_inside :
    ∃ race, Run (start {} [0] none {} threeTasks) race ∧
      (race.callers 0).held .upkeep = true ∧ (race.callers 2).held .exchange = true :=
  ⟨(start {} [0] none {} threeTasks).play [0, 2, 0, 2], run_play _ .rest, rfl, rfl⟩

end FlagRace

end Overlay
