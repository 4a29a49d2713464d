import Overlay.Proofs.Pool.Supervisors
import Overlay.Settings

/-!
# The waits of a search

A search waits in each of its slots.  An outbound peer waits for the delay and a
random part of up to a quarter of it, an inbound one for the delay and a whole
quarter.  The delay doubles from slot to slot until it reaches a maximum.  A
span of time and a count of slots are held in so many bits, and whoever exceeds
them is lost.

Settings cannot exceed the spans, whatever they are.  They can exceed the count
of slots in one way: the largest number of attempts, for an inbound peer.  Then
the program panics.  Otherwise no turn of a supervisor in a world that
shows the life of its peer is a panic.
-/

namespace Overlay

/-- How many nanoseconds a span of time falls short of: its seconds are held in sixty-four bits. -/
def spanBound : Nat := UInt64.size * 1000000000

/-- A span of time in nanoseconds. -/
structure Span where
  nanos : Nat
  bound : nanos < spanBound

namespace Span

/-- The span of so many nanoseconds, unless it is too long to be held. -/
def ofNanos? (nanos : Nat) : Option Span :=
  if bound : nanos < spanBound then some ⟨nanos, bound⟩ else none

def ofMillis? (millis : Nat) : Option Span :=
  ofNanos? (millis * 1000000)

def add? (span other : Span) : Option Span :=
  ofNanos? (span.nanos + other.nanos)

def twice? (span : Span) : Option Span :=
  ofNanos? (span.nanos * 2)

def quarter (span : Span) : Span where
  nanos := span.nanos / 4
  bound := Nat.lt_of_le_of_lt (Nat.div_le_self ..) span.bound

/-- The shorter one of two spans. -/
def min (span other : Span) : Span :=
  if span.nanos ≤ other.nanos then span else other

/-- The milliseconds of a span, in sixty-four bits. -/
def millis (span : Span) : Nat :=
  span.nanos / 1000000 % UInt64.size

/-- A random span of whole milliseconds, of up to a quarter of another one. -/
def jitter? (span : Span) (drawn : Nat) : Option Span :=
  ofMillis? (drawn % (span.millis / 4 + 1))

/-- What is added to a delay: a random part for a peer that dials, a quarter for one that is
dialed. -/
def extra? (span : Span) (drawn : Nat) : Direction → Option Span
  | .outbound => span.jitter? drawn
  | .inbound => some span.quarter

end Span

/-- The waits of so many slots from a delay on, unless a span is too long to be held.  For each slot
a number is drawn. -/
def waits? (direction : Direction) (maxDelay : Span) (drawn : Nat → Nat) :
    Nat → Span → Option (List Span)
  | 0, _ => some []
  | slots + 1, delay => do
    let extra ← delay.extra? (drawn slots) direction
    let wait ← delay.add? extra
    let next ← delay.twice?
    let waits ← waits? direction maxDelay drawn slots (next.min maxDelay)
    return wait :: waits

/-- The waits of a search of a peer, one for each of its slots, unless a number is too large to be
held. -/
def Peer.waits? (peer : Peer) (drawn : Nat → Nat) : Option (List Span) := do
  let slots ← peer.slots?
  let delay ← Span.ofMillis? peer.policy.delay
  let maxDelay ← Span.ofMillis? peer.policy.maxDelay
  Overlay.waits? peer.direction maxDelay drawn slots delay

/-! ## Spans that are held -/

namespace Span

theorem ofNanos?_of_lt {nanos : Nat} (hbound : nanos < spanBound) :
    ofNanos? nanos = some ⟨nanos, hbound⟩ :=
  dif_pos hbound

/-- Spans that a setting may have are far from the bound. -/
def IsModest (span : Span) : Prop :=
  span.nanos ≤ (UInt64.size - 1) * 1000000

variable {span other : Span}

theorem IsModest.twice_lt (hspan : span.IsModest) : span.nanos * 2 < spanBound :=
  Nat.lt_of_le_of_lt (Nat.mul_le_mul_right 2 hspan) (by decide)

/-- A setting of sixty-four bits is a span. -/
theorem exists_ofMillis? {millis : Nat} (hmillis : millis < UInt64.size) :
    ∃ span, ofMillis? millis = some span ∧ span.nanos = millis * 1000000 ∧ span.IsModest := by
  have hmodest : millis * 1000000 ≤ (UInt64.size - 1) * 1000000 :=
    Nat.mul_le_mul_right _ (Nat.le_sub_one_of_lt hmillis)
  have hbound : millis * 1000000 < spanBound := Nat.lt_of_le_of_lt hmodest (by decide)
  exact ⟨_, ofNanos?_of_lt hbound, rfl, hmodest⟩

/-- A modest span and up to a quarter of it are a span. -/
theorem exists_add? (hspan : span.IsModest) (hother : 4 * other.nanos ≤ span.nanos) :
    ∃ sum, span.add? other = some sum ∧ sum.nanos = span.nanos + other.nanos := by
  have htwice := hspan.twice_lt
  have hbound : span.nanos + other.nanos < spanBound := by omega
  exact ⟨_, ofNanos?_of_lt hbound, rfl⟩

theorem exists_twice? (hspan : span.IsModest) : ∃ twice, span.twice? = some twice :=
  ⟨_, ofNanos?_of_lt hspan.twice_lt⟩

theorem quarter_le (span : Span) : 4 * span.quarter.nanos ≤ span.nanos :=
  Nat.mul_div_le span.nanos 4

theorem exists_jitter? (span : Span) (drawn : Nat) :
    ∃ extra, span.jitter? drawn = some extra ∧ 4 * extra.nanos ≤ span.nanos := by
  have hdrawn : drawn % (span.millis / 4 + 1) ≤ span.millis / 4 :=
    Nat.le_of_lt_succ (Nat.mod_lt _ (Nat.succ_pos _))
  have hmillis : span.millis ≤ span.nanos / 1000000 := Nat.mod_le ..
  have hsize : span.millis < UInt64.size := Nat.mod_lt _ (by decide)
  obtain ⟨extra, hextra, hnanos, -⟩ :=
    exists_ofMillis? (show drawn % (span.millis / 4 + 1) < UInt64.size by omega)
  exact ⟨extra, hextra, by omega⟩

theorem exists_extra? (span : Span) (drawn : Nat) (direction : Direction) :
    ∃ extra, span.extra? drawn direction = some extra ∧ 4 * extra.nanos ≤ span.nanos := by
  cases direction with
  | outbound => exact span.exists_jitter? drawn
  | inbound => exact ⟨_, rfl, span.quarter_le⟩

theorem min_le_right (span other : Span) : (span.min other).nanos ≤ other.nanos := by
  rw [min]
  split
  · assumption
  · exact Nat.le_refl _

end Span

/-- The waits of any number of slots are held, and none is longer than the longest delay and a
quarter of it. -/
theorem exists_waits? (direction : Direction) {maxDelay : Span} (hmax : maxDelay.IsModest)
    (drawn : Nat → Nat) (slots : Nat) {delay : Span} (hdelay : delay.nanos ≤ maxDelay.nanos) :
    ∃ waits, waits? direction maxDelay drawn slots delay = some waits ∧ waits.length = slots ∧
      ∀ wait ∈ waits, 4 * wait.nanos ≤ 5 * maxDelay.nanos := by
  induction slots generalizing delay with
  | zero => exact ⟨[], rfl, rfl, nofun⟩
  | succ slots ih =>
      have hmodest : delay.IsModest := Nat.le_trans hdelay hmax
      obtain ⟨extra, hextra, hquarter⟩ := delay.exists_extra? (drawn slots) direction
      obtain ⟨wait, hwait, hnanos⟩ := Span.exists_add? hmodest hquarter
      obtain ⟨next, hnext⟩ := Span.exists_twice? hmodest
      obtain ⟨waits, hwaits, hlength, hall⟩ := ih (next.min_le_right maxDelay)
      refine ⟨wait :: waits, ?_, congrArg (· + 1) hlength, fun other hother => ?_⟩
      · simp only [waits?, hextra, Option.bind_eq_bind, Option.bind_some, hwait, hnext, hwaits,
          Option.pure_def]
      · rcases List.mem_cons.1 hother with rfl | hlater
        · omega
        · exact hall other hlater

/-! ## Searches that nothing exceeds -/

/-- A supervisor that is never lost: the waits of its searches are held, it goes on until it has
ended, and a search is over after a number of sections that is known in advance.  Then the peer
does not wait for a line any more.  What the program does in a turn is a run, and no panic. -/
structure Life.Paced (life : Life) : Prop where
  waits : ∀ drawn, ∃ slots waits, life.peer.slots? = some slots ∧
    life.peer.waits? drawn = some waits ∧ waits.length = slots ∧
    ∀ wait ∈ waits, 4 * wait.nanos ≤ 5 * (life.peer.policy.maxDelay * 1000000)
  goesOn : life.stage ≠ .gone → ∃ next, Life.Supervised life next
  settles : life.stage.isSearching = true → ∀ count next, Life.Run life count next →
    life.patience ≤ count → ∃ sooner rest settled, sooner + rest = count ∧
      Life.Run life sooner settled ∧ settled.stage.hasSettled = true ∧
      settled.peer.state ≠ .reconnecting ∧ Life.Run settled rest next
  turns : ∀ id dial, Life.Interposes id dial → ∀ watch world, Life.Shows id watch world life →
    life.Attends watch → ∃ count next now, Life.Run life count next ∧
      Life.Shows id now (world.supervise dial id) next ∧ next.Attends now ∧ now ≠ .panicked

/-- A supervisor that is lost when its peer has begun to wait for a line: no waits can be computed,
and no section is next.  The program panics when a session of the peer ends, unless the peer was
ended or the remote node has said goodbye. -/
structure Life.Panics (life : Life) : Prop where
  waits : ∀ drawn, life.peer.waits? drawn = none
  stuck : ∀ stale, life.stage = .dropping stale → ∀ next, ¬ Life.Supervised life next
  ends : life.peer.state ≠ .disconnected → life.peer.closing = false →
    ∀ id watch world, Life.Shows id watch world life → ∀ dial cause,
      (world.sessionEnded dial (life.peer.watched watch) cause).pool.panicked = true

theorem Peer.waits?_of_slots {peer : Peer} (hslots : peer.slots? = none) (drawn : Nat → Nat) :
    peer.waits? drawn = none := by
  rw [waits?, hslots]
  rfl

namespace Life

variable {life : Life}

/-- A supervisor cannot go on if the slots of its peer cannot be counted. -/
theorem not_supervised_of_slots {next : Life} (hslots : life.peer.slots? = none)
    {stale : Option Nat} (hstage : life.stage = .dropping stale) : ¬ Supervised life next := by
  intro hsupervised
  cases hsupervised
  case drop hdropping hcounted => exact absurd (hslots.symm.trans hcounted) nofun
  all_goals simp_all

theorem panics_of_slots (hslots : life.peer.slots? = none) : life.Panics where
  waits := Peer.waits?_of_slots hslots
  stuck := fun _ hstage _ => not_supervised_of_slots hslots hstage
  ends := fun hstate hclosing _ _ _ hshows dial cause =>
    hshows.sessionEnded_panicked hslots hstate hclosing dial cause

/-- A supervisor whose slots can be counted does not panic. -/
theorem Rested.calm {id slots : Nat} {world : World} (hrested : Rested life id world)
    (hslots : life.peer.slots? = some slots) :
    ∃ count next now, Run life count next ∧ Shows id now world next ∧ next.Attends now ∧
      now ≠ .panicked := by
  obtain ⟨count, next, now, hrun, hshows, hattends⟩ := hrested
  refine ⟨count, next, now, hrun, hshows, hattends, ?_⟩
  rintro rfl
  cases hattends with
  | panicked hnone => exact absurd ((hrun.sameSetup.slots?_eq.trans hslots).symm.trans hnone) nofun

end Life

/-- An entry that is missing or a number up to a bound is up to the bound if its default is. -/
theorem Toml.Table.le_of_field {table : Toml.Table} {key : String} {bound missing n : Nat}
    (hfield : table.field key (Value.asNat bound) missing = some n) (hmissing : missing ≤ bound) :
    n ≤ bound := by
  rw [field] at hfield
  split at hfield
  · exact Option.some.inj hfield ▸ hmissing
  · next value hvalue =>
    cases value with
    | integer i =>
        rw [Value.asNat] at hfield
        split at hfield
        · next hbounds =>
          obtain rfl := Option.some.inj hfield
          omega
        · exact absurd hfield nofun
    | _ => exact absurd hfield nofun

namespace Settings

/-- The numbers for the waits of a search are held in the bits that they have. -/
structure Fits (settings : Settings) : Prop where
  attempts : settings.attempts < UInt32.size
  reconnectDelay : settings.reconnectDelay < UInt64.size
  maxReconnectDelay : settings.maxReconnectDelay < UInt64.size

variable {settings : Settings}

/-- Settings that were read from a document are held. -/
theorem fits_of_ofTable {table : Toml.Table} (hread : ofTable table = some settings) :
    settings.Fits := by
  rw [ofTable] at hread
  -- ten entries come before the number of attempts, and five after the longest delay
  iterate 10 replace hread := (Option.bind_eq_some_iff.1 hread).choose_spec.2
  obtain ⟨attempts, hattempts, hread⟩ := Option.bind_eq_some_iff.1 hread
  obtain ⟨delay, hdelay, hread⟩ := Option.bind_eq_some_iff.1 hread
  obtain ⟨maxDelay, hmax, hread⟩ := Option.bind_eq_some_iff.1 hread
  iterate 5 replace hread := (Option.bind_eq_some_iff.1 hread).choose_spec.2
  rw [← Option.some.inj hread]
  exact ⟨Nat.lt_of_le_of_lt (Toml.Table.le_of_field hattempts (by decide)) (by decide),
    Nat.lt_of_le_of_lt (Toml.Table.le_of_field hdelay (by decide)) (by decide),
    Nat.lt_of_le_of_lt (Toml.Table.le_of_field hmax (by decide)) (by decide)⟩

/-- An address of the environment replaces none of the numbers. -/
theorem Fits.overrideAddress (hfits : settings.Fits) {address : String} {replaced : Settings}
    (hreplaced : settings.overrideAddress address = .ok replaced) : replaced.Fits := by
  rw [Settings.overrideAddress] at hreplaced
  split at hreplaced
  · exact Except.ok.inj hreplaced ▸ ⟨hfits.attempts, hfits.reconnectDelay, hfits.maxReconnectDelay⟩
  · split at hreplaced
    · exact absurd hreplaced nofun
    · exact Except.ok.inj hreplaced ▸
        ⟨hfits.attempts, hfits.reconnectDelay, hfits.maxReconnectDelay⟩

theorem Fits.overridePort (hfits : settings.Fits) {port : String} {replaced : Settings}
    (hreplaced : settings.overridePort port = .ok replaced) : replaced.Fits := by
  rw [Settings.overridePort] at hreplaced
  split at hreplaced
  · exact absurd hreplaced nofun
  · exact Except.ok.inj hreplaced ▸ ⟨hfits.attempts, hfits.reconnectDelay, hfits.maxReconnectDelay⟩

theorem Fits.overrideBy (hfits : settings.Fits) (env : Environment) :
    (settings.overrideBy env).1.Fits := by
  rw [Settings.overrideBy]
  split
  · exact hfits
  · next replaced hreplaced =>
    have hheld : replaced.Fits := by
      split at hreplaced
      · exact Except.ok.inj hreplaced ▸ hfits
      · exact hfits.overrideAddress hreplaced
    split
    · exact hheld
    · split
      · exact hheld
      · next hported => exact hheld.overridePort hported

/-- The numbers of settings that a node starts with are held. -/
theorem fits_of_ofSources {text : String} {env : Environment}
    (hread : ofSources text env = .ok settings) : settings.Fits := by
  rw [ofSources] at hread
  cases htext : ofText text with
  | error cause =>
      rw [htext] at hread
      exact absurd hread nofun
  | ok written =>
      have hwritten : written.Fits := by
        rw [ofText] at htext
        split at htext
        · exact absurd htext nofun
        · next hsome =>
          obtain ⟨table, -, htable⟩ := Option.bind_eq_some_iff.1 hsome
          exact Except.ok.inj htext ▸ fits_of_ofTable htable
      rw [htext] at hread
      have hreplaced := hwritten.overrideBy env
      rcases hoverride : written.overrideBy env with ⟨replaced, applied⟩
      rw [hoverride] at hreplaced
      simp only [bind, Except.bind, hoverride] at hread
      cases applied with
      | error cause => exact absurd hread nofun
      | ok =>
          cases hvalid : replaced.validate with
          | error cause =>
              rw [hvalid] at hread
              exact absurd hread nofun
          | ok =>
              rw [hvalid] at hread
              exact Except.ok.inj hread ▸ hreplaced

/-- The waits of a peer are held if its slots are. -/
theorem Fits.exists_waits? (hfits : settings.Fits) {peer : Peer}
    (hpolicy : peer.policy = settings.linkPolicy) {slots : Nat}
    (hslots : peer.slots? = some slots) (drawn : Nat → Nat) :
    ∃ waits, peer.waits? drawn = some waits ∧ waits.length = slots ∧
      ∀ wait ∈ waits, 4 * wait.nanos ≤ 5 * (peer.policy.maxDelay * 1000000) := by
  have hlongest : peer.policy.maxDelay < UInt64.size := by
    rw [hpolicy]
    exact Nat.max_lt.2 ⟨hfits.maxReconnectDelay, hfits.reconnectDelay⟩
  have horder : peer.policy.delay ≤ peer.policy.maxDelay := by
    rw [hpolicy]
    exact Nat.le_max_right ..
  obtain ⟨delay, hdelay, hnanos, -⟩ :=
    Span.exists_ofMillis? (Nat.lt_of_le_of_lt horder hlongest)
  obtain ⟨maxDelay, hmaxDelay, hmaxNanos, hmodest⟩ := Span.exists_ofMillis? hlongest
  have hle : delay.nanos ≤ maxDelay.nanos := by
    rw [hnanos, hmaxNanos]
    exact Nat.mul_le_mul_right _ horder
  obtain ⟨waits, hwaits, hlength, hall⟩ :=
    Overlay.exists_waits? peer.direction hmodest drawn slots hle
  rw [hmaxNanos] at hall
  refine ⟨waits, ?_, hlength, hall⟩
  simp only [Peer.waits?, hslots, hdelay, hmaxDelay, Option.bind_eq_bind, Option.bind_some, hwaits]

/-- The slots of a peer are held, unless it is inbound and the attempts are as many as can be
counted. -/
theorem Fits.slots?_cases (hfits : settings.Fits) {peer : Peer}
    (hpolicy : peer.policy = settings.linkPolicy) :
    (peer.direction = .outbound ∨ settings.attempts + 1 < UInt32.size) ∧
        (∃ slots, peer.slots? = some slots) ∨
      peer.direction = .inbound ∧ settings.attempts + 1 = UInt32.size ∧ peer.slots? = none := by
  have hattempts : peer.policy.attempts = settings.attempts := by rw [hpolicy]; rfl
  have hbound := hfits.attempts
  rcases Nat.lt_or_ge (settings.attempts + 1) UInt32.size with hroom | hfull
  · rw [← hattempts] at hroom
    exact Or.inl ⟨Or.inr (hattempts ▸ hroom), Peer.exists_slots hroom⟩
  · cases hdirection : peer.direction with
    | outbound =>
        refine Or.inl ⟨Or.inl rfl, settings.attempts, ?_⟩
        simp only [Peer.slots?, hdirection, hattempts]
        exact if_pos hbound
    | inbound =>
        refine Or.inr ⟨rfl, by omega, ?_⟩
        simp only [Peer.slots?, hdirection, hattempts]
        exact if_neg (Nat.not_lt.2 hfull)

/-- **Settings whose numbers are held do not lose a supervisor, with one exception.**  The slots and
all waits of a search are held, whatever is drawn, and the search comes to its end.  The exception
is an inbound peer under the largest number of attempts: the one slot more cannot be counted, and
the program panics when the peer has begun to wait for a line. -/
theorem paced_unless_full (hfits : settings.Fits) {id : Nat} {link : Link} {count : Nat}
    {life : Life} (hrun : Life.Run (.start id link settings.linkPolicy) count life) :
    (life.peer.direction = .outbound ∨ settings.attempts + 1 < UInt32.size) ∧ life.Paced ∨
      life.peer.direction = .inbound ∧ settings.attempts + 1 = UInt32.size ∧ life.Panics := by
  have hsound := hrun.sound (Life.sound_start id link settings.linkPolicy)
  have hpolicy : life.peer.policy = settings.linkPolicy := hrun.sameSetup.policy
  rcases hfits.slots?_cases hpolicy with ⟨hroom, slots, hslots⟩ | ⟨hdirection, hfull, hslots⟩
  · refine Or.inl ⟨hroom, fun drawn => ?_, Life.exists_supervised_of_slots ⟨slots, hslots⟩, ?_, ?_⟩
    · obtain ⟨waits, hwaits⟩ := hfits.exists_waits? hpolicy hslots drawn
      exact ⟨slots, waits, hslots, hwaits⟩
    · intro hsearching more next hmore hcount
      obtain ⟨sooner, rest, settled, hsum, hbefore, hsettled, hafter⟩ :=
        hmore.passes hsearching hcount
      have hphase := (hbefore.sound hsound).phase
      exact ⟨sooner, rest, settled, hsum, hbefore, hsettled, hphase.state_of_settled hsettled,
        hafter⟩
    · intro peer dial hdial watch world hshows hattends
      exact (Life.rested_supervise hdial hsound .refl hshows hattends).calm hslots
  · exact Or.inr ⟨hdirection, hfull, Life.panics_of_slots hslots⟩

/-- The usual settings do not lose the supervisor of an inbound peer. -/
theorem paced_unless_full_usual :
    Fits {} ∧ Life.Paced (.start 1 Life.inboundLink (linkPolicy {})) := by
  have hfits : Fits {} := ⟨by decide, by decide, by decide⟩
  refine ⟨hfits, ?_⟩
  rcases paced_unless_full hfits (@Life.Run.refl (.start 1 Life.inboundLink (linkPolicy {}))) with
    ⟨-, hpaced⟩ | ⟨-, hfull, -⟩
  · exact hpaced
  · exact absurd hfull (by decide)

/-- Settings with the largest number of attempts are accepted.  An inbound peer that loses its line
goes on waiting for one, its supervisor is lost, and the program panics. -/
theorem not_paced_full :
    validate { bootnodes := [], attempts := UInt32.size - 1 } = .ok () ∧
      Fits { bootnodes := [], attempts := UInt32.size - 1 } ∧
      (∃ life, Life.Run (.start 1 Life.inboundLink
          (linkPolicy { bootnodes := [], attempts := UInt32.size - 1 })) 4 life ∧
        life.peer.state = .reconnecting ∧ life.stage.hasSettled = false ∧
        (∀ drawn, life.peer.waits? drawn = none) ∧ ∀ next, ¬ Life.Supervised life next) ∧
      ∀ dial, (World.supervise dial
        { pool.members := [Peer.start 1 Life.inboundLink
            (linkPolicy { bootnodes := [], attempts := UInt32.size - 1 })]
          net.lines := [{ farOpen := false }] } 1).pool.panicked = true := by
  have hfits : Fits { bootnodes := [], attempts := UInt32.size - 1 } :=
    ⟨by decide, by decide, by decide⟩
  have hrun := (@Life.Run.refl (.start 1 Life.inboundLink
      (linkPolicy { bootnodes := [], attempts := UInt32.size - 1 })))
    |>.supervise (.stop rfl (.io "reset"))
    |>.supervise (.live rfl nofun)
    |>.supervise (.stay rfl rfl)
    |>.supervise (.lose rfl rfl)
  exact ⟨rfl, hfits, ⟨_, hrun, rfl, rfl, Peer.waits?_of_slots (by decide),
    fun next => Life.not_supervised_of_slots (by decide) rfl⟩, fun dial => rfl⟩

end Settings

end Overlay
