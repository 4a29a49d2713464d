import Overlay.Proofs.Pool.ConcurrentPool

/-!
# The identities of the members of a pool

Whatever calls are under way and in whatever order their sections come, the
pool stays orderly, and the line of every session is that of a link on which
the node of the member has proved who it is.
-/

namespace Overlay

namespace Life

variable {life next : Life}

/-- A line is that of the session, or the supervisor has it in hand. -/
def Holds (life : Life) (line : Nat) : Prop :=
  life.line? = some line ∨ life.stage.inHand? = some line

/-- What no section does: it does not make another node of a peer, does not put it back on the way
to its first session, and holds no line but those that were held and those that are new. -/
structure Tame (life next : Life) : Prop where
  card : next.peer.card = life.peer.card
  state : next.peer.state = .connecting → life.peer.state = .connecting
  holds : ∀ line, next.Holds line → life.Holds line ∨ line ∈ next.offered ∧ line ∉ life.offered

/-- A section that takes no line in hand and installs none. -/
theorem tame_of_line (hcard : next.peer.card = life.peer.card)
    (hstate : next.peer.state = .connecting → life.peer.state = .connecting)
    (hline : ∀ line, next.line? = some line → life.line? = some line)
    (hhand : next.stage.inHand? = none) : Tame life next where
  card := hcard
  state := hstate
  holds := by
    rintro line (hown | hheld)
    · exact Or.inl (Or.inl (hline line hown))
    · rw [hhand] at hheld
      exact absurd hheld nofun

/-- A section of an ending makes no other node of a peer, and leaves it on its way at most. -/
theorem card_of_proceed {teardown after : Teardown} {peer torn : Peer} {closed : Option Nat}
    (hproceed : teardown.proceed peer = (after, closed, torn)) :
    torn.card = peer.card ∧ (torn.state = .connecting → peer.state = .connecting) := by
  cases teardown <;> obtain ⟨-, -, rfl⟩ := hproceed
  case marking => exact ⟨rfl, nofun⟩
  all_goals exact ⟨rfl, id⟩

theorem Supervised.tame (hsupervised : Supervised life next) : Tame life next := by
  cases hsupervised
  case hear hpumping message =>
    refine tame_of_line rfl id (fun _ => id) ?_
    show life.stage.inHand? = none
    rw [hpumping]
    rfl
  case stop hpumping cause => cases cause <;> exact tame_of_line rfl id (fun _ => id) rfl
  case lose hlosing hlose =>
    obtain ⟨-, rfl, rfl⟩ := (Peer.lose_eq_some_iff _ _ _).1 hlose
    refine ⟨rfl, nofun, ?_⟩
    rintro line (hown | hheld)
    · exact absurd hown nofun
    · exact Or.inl (Or.inl hheld)
  case receive hwaiting hhandoff hpick =>
    obtain ⟨-, rfl⟩ := (Peer.pickUp_eq_some_iff _ _).1 hpick
    exact tame_of_line rfl id (fun _ => id) rfl
  case answered hdialing hkey hfresh =>
    refine ⟨rfl, id, ?_⟩
    rintro line (hown | ⟨⟨⟩⟩)
    · exact Or.inl (Or.inl hown)
    · exact Or.inr ⟨List.mem_cons_self, hfresh⟩
  case install hdialed hinstall =>
    obtain ⟨-, rfl⟩ := (Peer.install_eq_some_iff _ _ _).1 hinstall
    refine ⟨rfl, nofun, ?_⟩
    rintro line (⟨⟨⟩⟩ | hheld)
    · refine Or.inl (Or.inr ?_)
      rw [hdialed]
      rfl
    · exact absurd hheld nofun
  case overtaken hdialed hinstall hhandoff hpick =>
    obtain ⟨-, rfl⟩ := (Peer.pickUp_eq_some_iff _ _).1 hpick
    exact tame_of_line rfl id (fun _ => id) rfl
  case exhaust hwaiting hexhaust =>
    obtain ⟨-, rfl⟩ := (Peer.exhaust_eq_some_iff _ _).1 hexhaust
    exact tame_of_line rfl nofun (fun _ => id) rfl
  case collect hcollecting hhandoff hpick =>
    obtain ⟨-, rfl⟩ := (Peer.pickUp_eq_some_iff _ _).1 hpick
    exact tame_of_line rfl id (fun _ => id) rfl
  case tear htearing hproceed hopen =>
    obtain ⟨hcard, hstate⟩ := card_of_proceed hproceed
    exact tame_of_line hcard hstate (fun _ => proceed_installs_none hproceed) rfl
  all_goals exact tame_of_line rfl id (fun _ => id) rfl

theorem Meanwhile.tame (hmeanwhile : Meanwhile life next) : Tame life next := by
  cases hmeanwhile with
  | traffic hsession hline =>
      refine ⟨rfl, id, fun line hholds => Or.inl ?_⟩
      rw [Holds, line?, hsession, Option.map_some, ← hline]
      exact hholds
  | adopt hfresh hadopt =>
      obtain ⟨-, rfl⟩ := (Peer.adopt_eq_some_iff _ _ _).1 hadopt
      refine ⟨rfl, (fun hstate => by cases hstate), ?_⟩
      rintro line (⟨⟨⟩⟩ | hheld)
      · exact Or.inr ⟨List.mem_cons_self, hfresh⟩
      · exact Or.inl (Or.inr hheld)
  | proceed hcalls hproceed hopen =>
      obtain ⟨hcard, hstate⟩ := card_of_proceed hproceed
      refine ⟨hcard, hstate, ?_⟩
      rintro line (hown | hheld)
      · exact Or.inl (Or.inl (proceed_installs_none hproceed hown))
      · exact Or.inl (Or.inr hheld)
  | _ => exact ⟨rfl, id, fun _ => Or.inl⟩

end Life

namespace ConcurrentPool

variable {s next later : ConcurrentPool} {links : List Link} {link : Link}

/-- The far end of a line has proved that it has the key of an identity. -/
def Proven (links : List Link) (identity : Identity) (line : Nat) : Prop :=
  ∃ link ∈ links, link.line = line ∧ link.identity.publicKey = identity.publicKey

/-- A member has had its first session, and on every line that it holds its node has proved who it
is. -/
structure Backs (links : List Link) (stage : Stage) (gist : Peer.Gist) : Prop where
  settled : gist.state ≠ .connecting
  proven : ∀ line, gist.line = some line ∨ stage.inHand? = some line →
    Proven links gist.identity line

/-- What all sections keep to. -/
structure Sound (s : ConcurrentPool) : Prop where
  orderly : s.world.pool.Orderly
  members : ∀ gist ∈ s.world.pool.gists, Backs s.links (s.stage gist.id) gist
  lines : (s.links.map (·.line)).Nodup
  calls : ∀ call ∈ s.calls, call.Keeps Report.Clean s.links
  reports : ∀ report ∈ s.reports, report.Clean

theorem sound_start (policy : PoolPolicy) (localKey : Bytes) (store : Option PeerStore)
    (net : Net) : (start policy localKey store net).Sound where
  orderly := Pool.orderly_empty policy localKey store
  members := nofun
  lines := List.nodup_nil
  calls := nofun
  reports := nofun

theorem Proven.mono {more : List Link} {identity : Identity} {line : Nat}
    (hproven : Proven links identity line) (hlinks : links ⊆ more) :
    Proven more identity line := by
  obtain ⟨link, hlink, hline, hkey⟩ := hproven
  exact ⟨link, hlinks hlink, hline, hkey⟩

theorem Backs.mono {more : List Link} {stage : Stage} {gist : Peer.Gist}
    (hbacks : Backs links stage gist) (hlinks : links ⊆ more) : Backs more stage gist where
  settled := hbacks.settled
  proven := fun line hholds => (hbacks.proven line hholds).mono hlinks

/-- A section in which no line is new leaves a member on lines that its node has proved. -/
theorem Backs.tame {life after : Life} (hbacks : Backs links life.stage life.peer.gist)
    (htame : Life.Tame life after) (hoffered : after.offered = life.offered) :
    Backs links after.stage after.peer.gist where
  settled := fun hstate => hbacks.settled (htame.state hstate)
  proven := by
    intro line hholds
    show Proven links after.peer.card.identity line
    rw [htame.card]
    rcases htame.holds line hholds with hbefore | ⟨hnew, hfresh⟩
    · exact hbacks.proven line hbefore
    · rw [hoffered] at hnew
      exact absurd hnew hfresh

/-- The supervisor of one member stands elsewhere. -/
theorem backs_update {stage : Nat → Stage} {id : Nat} {new : Stage} {gist : Peer.Gist}
    (hself : gist.id = id → Backs links new gist)
    (hother : gist.id ≠ id → Backs links (stage gist.id) gist) :
    Backs links (Function.update stage id new gist.id) gist := by
  by_cases hid : gist.id = id
  · rw [hid, Function.update_self]
    exact hself hid
  · rw [Function.update_of_ne hid]
    exact hother hid

/-! ## Single sections -/

/-- A new link proves what was proved. -/
theorem Sound.arrive (hsound : s.Sound) (hfresh : ∀ other ∈ s.links, other.line ≠ link.line) :
    Sound { s with links := link :: s.links } where
  orderly := hsound.orderly
  members := fun gist hgist =>
    (hsound.members gist hgist).mono (List.subset_cons_self link s.links)
  lines := by
    rw [List.map_cons, List.nodup_cons]
    refine ⟨fun hmem => ?_, hsound.lines⟩
    obtain ⟨other, hother, hline⟩ := List.mem_map.1 hmem
    exact hfresh other hother hline
  calls := fun call hcall => (hsound.calls call hcall).mono (List.subset_cons_self link s.links)
  reports := hsound.reports

/-- A call goes on with what keeps to everything. -/
theorem Sound.goOn (hsound : s.Sound) {before behind : List (Procedure Report)}
    {call rest : Procedure Report} (hcalls : s.calls = before ++ call :: behind)
    (hrest : rest.Keeps Report.Clean s.links) :
    Sound { s with calls := before ++ rest :: behind } where
  orderly := hsound.orderly
  members := hsound.members
  lines := hsound.lines
  calls := by
    have hcalls := hcalls ▸ hsound.calls
    rw [List.forall_mem_append, List.forall_mem_cons] at hcalls ⊢
    exact ⟨hcalls.1, hrest, hcalls.2.2⟩
  reports := hsound.reports

theorem Sound.call (hsound : s.Sound) {before behind : List (Procedure Report)}
    {call : Procedure Report} (hcalls : s.calls = before ++ call :: behind) :
    call.Keeps Report.Clean s.links :=
  hsound.calls call (by rw [hcalls]; exact List.mem_append_right _ List.mem_cons_self)

theorem Sound.spare (hsound : s.Sound) {after : World} (hspares : s.world.Spares after) :
    Sound { s with world := after } where
  orderly := hspares.orderly hsound.orderly
  members := fun gist hgist => hsound.members gist (hspares.members.subset hgist)
  lines := hsound.lines
  calls := hsound.calls
  reports := hsound.reports

/-- A member and its supervisor change, and the member is not made another node. -/
theorem Sound.put (hsound : s.Sound) {peer changed : Peer} (hmember : peer ∈ s.world.pool.members)
    (hcard : changed.card = peer.card) {stage : Stage}
    (hbacks : Backs s.links stage changed.gist) :
    Sound { s with
      world := s.world.put changed
      stage := Function.update s.stage peer.id stage } := by
  have hid : changed.id = peer.id := congrArg (·.id) hcard
  rw [World.put, hid]
  refine ⟨?_, ?_, hsound.lines, hsound.calls, hsound.reports⟩
  · refine hsound.orderly.sublist ?_ rfl rfl
    show (s.world.pool.change peer.id fun _ => changed).roster.Sublist s.world.pool.roster
    rw [hsound.orderly.roster_change hmember hcard]
  · intro gist hgist
    rcases Pool.mem_gists_change hgist with rfl | ⟨hbefore, hother⟩
    · exact backs_update (fun _ => hbacks) fun hother => absurd hid hother
    · exact backs_update (fun hsame => absurd hsame hother) fun _ => hsound.members gist hbefore

theorem Sound.put_same (hsound : s.Sound) {peer changed : Peer}
    (hmember : peer ∈ s.world.pool.members) (hcard : changed.card = peer.card)
    (hbacks : Backs s.links (s.stage peer.id) changed.gist) :
    Sound { s with world := s.world.put changed } := by
  have hput := hsound.put hmember hcard hbacks
  rwa [Function.update_eq_self] at hput

/-- The supervisor of a member comes further, with the member as it is. -/
theorem Sound.further (hsound : s.Sound) {peer : Peer} (hmember : peer ∈ s.world.pool.members)
    {stage : Stage} (hbacks : Backs s.links stage peer.gist) :
    Sound { s with stage := Function.update s.stage peer.id stage } where
  orderly := hsound.orderly
  members := by
    intro gist hgist
    refine backs_update (fun hid => ?_) fun _ => hsound.members gist hgist
    rw [hsound.orderly.eq_gist hmember gist hgist hid]
    exact hbacks
  lines := hsound.lines
  calls := hsound.calls
  reports := hsound.reports

/-- The node of a link that was proved joins. -/
theorem Sound.join (hsound : s.Sound) (hlink : link ∈ s.links)
    (hself : link.identity.publicKey ≠ s.world.pool.localKey)
    (hkey : s.world.pool.withKey? link.identity.publicKey = none)
    (hendpoint : s.world.pool.atEndpoint? link.endpoint = none) (now : Int64) :
    Sound { s with
      world := { s.world with pool := s.world.pool.enroll link now }
      stage := Function.update s.stage s.world.pool.nextId (.pumping link.line) } where
  orderly := hsound.orderly.enroll hself hkey hendpoint now
  members := by
    intro gist hgist
    rw [Pool.gists_enroll, List.mem_append, List.mem_singleton] at hgist
    rcases hgist with hbefore | rfl
    · have hid : gist.id < s.world.pool.nextId :=
        hsound.orderly.drawn gist.toCard (Pool.toCard_mem hbefore)
      refine backs_update (fun hsame => absurd hsame (Nat.ne_of_lt hid)) fun _ => ?_
      exact hsound.members gist hbefore
    · refine backs_update (fun _ => ⟨nofun, ?_⟩) fun hother => absurd rfl hother
      rintro line (⟨⟨⟩⟩ | hheld)
      · exact ⟨link, hlink, rfl, rfl⟩
      · exact absurd hheld nofun
  lines := hsound.lines
  calls := hsound.calls
  reports := hsound.reports

/-- A member is resumed on a link that has proved its key. -/
theorem Sound.resume (hsound : s.Sound) (hlink : link ∈ s.links) {peer adopted : Peer}
    (hkey : s.world.pool.withKey? link.identity.publicKey = some peer)
    (hadopt : peer.adopt link.line = some adopted) :
    Sound { s with world := s.world.put adopted } := by
  obtain ⟨hmember, hsame⟩ := Pool.mem_of_withKey? hkey
  have hgist := Peer.gist_of_adopt hadopt
  refine hsound.put_same hmember (congrArg (·.toCard) hgist) ?_
  rw [hgist]
  refine ⟨nofun, ?_⟩
  rintro line (⟨⟨⟩⟩ | hheld)
  · exact ⟨link, hlink, rfl, hsame.symm⟩
  · exact (hsound.members peer.gist (Pool.mem_gists hmember)).proven line (Or.inr hheld)

/-- A link that was proved is offered to the pool. -/
theorem Sound.offer (hsound : s.Sound) (hlink : link ∈ s.links) :
    Sound { s with
      world := (s.world.addPeer link).2
      stage := posted s.stage link (s.world.addPeer link).1 } := by
  rcases s.world.addPeer_cases link with ⟨hself, hkey, hendpoint, hadded⟩ |
    ⟨hself, peer, adopted, hkey, hadopt, hresumed⟩ | ⟨hclosed, hresult⟩
  · rw [hadded]
    exact hsound.join hlink hself hkey hendpoint _
  · have hid : adopted.id = peer.id := congrArg (·.id) (Peer.gist_of_adopt hadopt)
    rw [hresumed, ← hid]
    exact hsound.resume hlink hkey hadopt
  · have hstage : posted s.stage link (s.world.addPeer link).1 = s.stage := by
      unfold posted
      split
      · next id hadded => exact absurd hadded (hresult id).1
      · rfl
    rw [hclosed, hstage]
    exact hsound.spare (World.spares_of_eq rfl rfl rfl)

theorem Step.sound (hstep : Step s next) (hsound : s.Sound) : next.Sound := by
  cases hstep with
  | arrive link hfresh => exact hsound.arrive hfresh
  | ask task hlink =>
      refine ⟨hsound.orderly, hsound.members, hsound.lines, ?_, hsound.reports⟩
      exact List.forall_mem_cons.2 ⟨Task.keeps hlink, hsound.calls⟩
  | act hcalls =>
      obtain ⟨hspares, hnext⟩ := hsound.call hcalls s.world hsound.orderly
      exact (hsound.goOn hcalls hnext).spare hspares
  | missed hcalls cause => exact hsound.goOn hcalls ((hsound.call hcalls).1 cause)
  | answered hcalls link hfresh =>
      exact (hsound.arrive hfresh).goOn hcalls ((hsound.call hcalls).2 link)
  | offer hcalls =>
      obtain ⟨hlink, hnext⟩ := hsound.call hcalls
      exact (hsound.goOn hcalls (hnext _)).offer hlink
  | unstarted hcalls hadded cause =>
      obtain ⟨hlink, hnext⟩ := hsound.call hcalls
      obtain ⟨-, hmembers, hlines, hkept, hreports⟩ := hsound.goOn hcalls (hnext (.error cause))
      exact ⟨hsound.orderly.skip, hmembers, hlines, hkept, hreports⟩
  | unopened hcalls hresumed cause => exact hsound.goOn hcalls ((hsound.call hcalls).2 _)
  | finish hcalls =>
      have hdone := hsound.call hcalls
      have hkept := hcalls ▸ hsound.calls
      rw [List.forall_mem_append, List.forall_mem_cons] at hkept
      refine ⟨hsound.orderly, hsound.members, hsound.lines, ?_, ?_⟩
      · exact List.forall_mem_append.2 ⟨hkept.1, hkept.2.2⟩
      · exact List.forall_mem_cons.2 ⟨hdone, hsound.reports⟩
  | supervise hmember hsupervised hoffered =>
      have htame := hsupervised.tame
      have hbacks := hsound.members _ (Pool.mem_gists hmember)
      exact hsound.put hmember htame.card (hbacks.tame htame hoffered)
  | redialed hmember hstage link hfresh hkey =>
      obtain ⟨hsettled, hproven⟩ := hsound.members _ (Pool.mem_gists hmember)
      refine (hsound.arrive hfresh).further hmember ⟨hsettled, ?_⟩
      rintro line (hown | ⟨⟨⟩⟩)
      · exact (hproven line (Or.inl hown)).mono (List.subset_cons_self ..)
      · exact ⟨link, List.mem_cons_self, rfl, hkey⟩
  | mistaken hmember hstage link hfresh hkey =>
      obtain ⟨hsettled, hproven⟩ := hsound.members _ (Pool.mem_gists hmember)
      refine (hsound.arrive hfresh).further hmember ⟨hsettled, ?_⟩
      rintro line (hown | hheld)
      · exact (hproven line (Or.inl hown)).mono (List.subset_cons_self ..)
      · exact absurd hheld nofun
  | interpose hmember hstage hmeanwhile hoffered =>
      have htame := hmeanwhile.tame
      have hbacks := hsound.members _ (Pool.mem_gists hmember)
      refine hsound.put_same hmember htame.card ?_
      rw [← hstage, ← hmeanwhile.stage_eq]
      exact Backs.tame (by rw [hstage]; exact hbacks) htame hoffered
  | onLines net => exact hsound.spare (World.spares_of_eq rfl rfl rfl)

theorem Run.sound {first : ConcurrentPool} (hrun : Run first s) (hfirst : first.Sound) :
    s.Sound := by
  induction hrun with
  | refl => exact hfirst
  | step hrun hstep ih => exact hstep.sound ih

/-! ## Who joins and who leaves -/

/-- What a section does to the list of the members: some leave, or one joins under the next id, with
the identity that a link has proved. -/
structure Develops (s next : ConcurrentPool) : Prop where
  localKey : next.world.pool.localKey = s.world.pool.localKey
  nextId : s.world.pool.nextId ≤ next.world.pool.nextId
  roster : next.world.pool.roster.Sublist s.world.pool.roster ∨
    ∃ link ∈ s.links, next.world.pool.nextId = s.world.pool.nextId + 1 ∧
      next.world.pool.roster =
        s.world.pool.roster ++ [⟨s.world.pool.nextId, link.identity, link.endpoint⟩]

theorem develops_of_world (hworld : next.world.pool = s.world.pool) : Develops s next where
  localKey := by rw [hworld]
  nextId := by rw [hworld]
  roster := by
    rw [hworld]
    exact Or.inl (List.Sublist.refl _)

/-- A member that is not made another node leaves the list as it is. -/
theorem Sound.develops_put (hsound : s.Sound) {peer changed : Peer}
    (hmember : peer ∈ s.world.pool.members) (hcard : changed.card = peer.card)
    (hworld : next.world = s.world.put changed) : Develops s next := by
  have hid : changed.id = peer.id := congrArg (·.id) hcard
  rw [World.put, hid] at hworld
  refine ⟨by rw [hworld]; rfl, by rw [hworld]; rfl, Or.inl ?_⟩
  rw [hworld]
  show (s.world.pool.change peer.id fun _ => changed).roster.Sublist s.world.pool.roster
  rw [hsound.orderly.roster_change hmember hcard]

/-- A link that is offered lets its node join at most. -/
theorem Sound.develops_offer (hsound : s.Sound) (hlink : link ∈ s.links)
    (hworld : next.world = (s.world.addPeer link).2) : Develops s next := by
  rcases World.roster_addPeer hsound.orderly link with ⟨-, -, -, hadded⟩ |
    ⟨hroster, hnext, hkey⟩
  · refine ⟨by rw [hworld, hadded]; rfl, by rw [hworld, hadded]; exact Nat.le_succ _,
      Or.inr ⟨link, hlink, ?_⟩⟩
    rw [hworld, hadded]
    exact ⟨rfl, Pool.roster_enroll s.world.pool link s.world.net.clock⟩
  · refine ⟨by rw [hworld, hkey], by rw [hworld, hnext], Or.inl ?_⟩
    rw [hworld, hroster]

theorem Step.develops (hstep : Step s next) (hsound : s.Sound) : Develops s next := by
  cases hstep with
  | act hcalls =>
      obtain ⟨hspares, -⟩ := hsound.call hcalls s.world hsound.orderly
      exact ⟨hspares.localKey, Nat.le_of_eq hspares.nextId.symm, Or.inl hspares.roster⟩
  | offer hcalls => exact hsound.develops_offer (hsound.call hcalls).1 rfl
  | unstarted hcalls hadded cause =>
      exact ⟨rfl, Nat.le_succ _, Or.inl (List.Sublist.refl _)⟩
  | supervise hmember hsupervised hoffered =>
      exact hsound.develops_put hmember hsupervised.tame.card rfl
  | interpose hmember hstage hmeanwhile hoffered =>
      exact hsound.develops_put hmember hmeanwhile.tame.card rfl
  | _ => exact develops_of_world rfl

/-- Whoever has an id that was drawn before had it before. -/
structure Follows (s later : ConcurrentPool) : Prop where
  localKey : later.world.pool.localKey = s.world.pool.localKey
  nextId : s.world.pool.nextId ≤ later.world.pool.nextId
  roster : ∀ card ∈ later.world.pool.roster, card.id < s.world.pool.nextId →
    card ∈ s.world.pool.roster

theorem Develops.follows (hdevelops : Develops s next) : Follows s next where
  localKey := hdevelops.localKey
  nextId := hdevelops.nextId
  roster := by
    intro card hcard hdrawn
    rcases hdevelops.roster with hleave | ⟨link, -, -, hjoin⟩
    · exact hleave.subset hcard
    · rw [hjoin, List.mem_append, List.mem_singleton] at hcard
      rcases hcard with hbefore | rfl
      · exact hbefore
      · exact absurd hdrawn (Nat.lt_irrefl _)

theorem Follows.trans (hfirst : Follows s next) (hnext : Follows next later) :
    Follows s later where
  localKey := hnext.localKey.trans hfirst.localKey
  nextId := Nat.le_trans hfirst.nextId hnext.nextId
  roster := by
    intro card hcard hdrawn
    have hbefore := hnext.roster card hcard (Nat.lt_of_lt_of_le hdrawn hfirst.nextId)
    exact hfirst.roster card hbefore hdrawn

theorem Run.follows (hrun : Run s later) (hsound : s.Sound) : Follows s later := by
  induction hrun with
  | refl => exact ⟨rfl, Nat.le_refl _, fun card hcard _ => hcard⟩
  | step hrun hstep ih => exact ih.trans (hstep.develops (hrun.sound hsound)).follows

/-- A member under an id that was drawn before is who had that id before. -/
theorem Follows.exists_member (hfollows : Follows s later) {other : Peer}
    (hother : other ∈ later.world.pool.members) (hdrawn : other.id < s.world.pool.nextId) :
    ∃ peer ∈ s.world.pool.members, peer.card = other.card :=
  List.mem_map.1 (hfollows.roster other.card (Pool.mem_roster hother) hdrawn)

/-! ## All of it -/

/-- What a pool promises of the identities of its members. -/
structure Lawful (localKey : Bytes) (s : ConcurrentPool) : Prop where
  endpoints : s.world.pool.endpoints.Nodup
  keys : (s.world.pool.members.map (·.identity.publicKey)).Nodup
  ids : (s.world.pool.members.map (·.id)).Pairwise (· < ·)
  foreign : ∀ peer ∈ s.world.pool.members, peer.identity.publicKey ≠ localKey
  /-- With every section members leave and the others stay who they are, or one joins: under an id
  that was not drawn before, and with the identity that a link has proved. -/
  develops : ∀ next, Step s next → Develops s next
  drawn : ∀ peer ∈ s.world.pool.members, peer.id < s.world.pool.nextId
  /-- Who has the id of a member later is who had it. -/
  same : ∀ later, Run s later → ∀ peer ∈ s.world.pool.members,
    ∀ other ∈ later.world.pool.members, other.id = peer.id →
      other.identity = peer.identity ∧ other.endpoint = peer.endpoint
  /-- An id that was drawn and is no member's never is one's again. -/
  once : ∀ later, Run s later → ∀ id < s.world.pool.nextId,
    (∀ peer ∈ s.world.pool.members, peer.id ≠ id) →
      ∀ other ∈ later.world.pool.members, other.id ≠ id
  /-- Every session of a member is on the line of one link, on which its key was proved. -/
  proven : ∀ peer ∈ s.world.pool.members, ∀ session, peer.session = some session →
    ∃ link ∈ s.links, link.line = session.line ∧
      link.identity.publicKey = peer.identity.publicKey ∧
      ∀ other ∈ s.links, other.line = session.line → other = link
  /-- No upkeep has reported that a duplicate was removed. -/
  clean : ∀ report, .upkeep (some report) ∈ s.reports → report.duplicates = 0

theorem Sound.proven (hsound : s.Sound) {peer : Peer} (hmember : peer ∈ s.world.pool.members)
    {session : Session} (hsession : peer.session = some session) :
    ∃ link ∈ s.links, link.line = session.line ∧
      link.identity.publicKey = peer.identity.publicKey ∧
      ∀ other ∈ s.links, other.line = session.line → other = link := by
  have hline : peer.gist.line = some session.line := by
    rw [Peer.gist, hsession, Option.map_some]
  obtain ⟨link, hlink, hsame, hkey⟩ :=
    (hsound.members peer.gist (Pool.mem_gists hmember)).proven session.line (Or.inl hline)
  refine ⟨link, hlink, hsame, hkey, fun other hother hline => ?_⟩
  exact List.inj_on_of_nodup_map hsound.lines hother hlink (hline.trans hsame.symm)

/-- **The identities of the members of a pool.**  Whatever is asked of a pool, and in whatever order
the sections of the calls, of the supervisors of the members and of all others come, the pool keeps
its promises. -/
theorem identities_of_run {policy : PoolPolicy} {localKey : Bytes} {store : Option PeerStore}
    {net : Net} (hrun : Run (start policy localKey store net) s) : s.Lawful localKey := by
  have hstart := sound_start policy localKey store net
  have hsound := hrun.sound hstart
  have horderly := hsound.orderly
  constructor
  case endpoints => exact horderly.endpoints
  case keys => exact horderly.keys
  case ids => exact horderly.ids
  case foreign =>
    intro peer hmember
    have hkey : s.world.pool.localKey = localKey := (hrun.follows hstart).localKey
    rw [← hkey]
    exact horderly.foreign peer.card (Pool.mem_roster hmember)
  case develops => exact fun next hstep => hstep.develops hsound
  case drawn => exact fun peer hmember => horderly.drawn peer.card (Pool.mem_roster hmember)
  case same =>
    intro later hlater peer hmember other hother hid
    have hdrawn : other.id < s.world.pool.nextId := by
      rw [hid]
      exact horderly.drawn peer.card (Pool.mem_roster hmember)
    obtain ⟨before, hformer, hcard⟩ := (hlater.follows hsound).exists_member hother hdrawn
    obtain rfl := horderly.eq_of_id hformer hmember ((congrArg (·.id) hcard).trans hid)
    exact ⟨(congrArg (·.identity) hcard).symm, (congrArg (·.endpoint) hcard).symm⟩
  case once =>
    rintro later hlater id hdrawn hnobody other hother rfl
    obtain ⟨before, hmember, hcard⟩ := (hlater.follows hsound).exists_member hother hdrawn
    exact hnobody before hmember (congrArg (·.id) hcard)
  case proven => exact fun peer hmember session hsession => hsound.proven hmember hsession
  case clean => exact fun report hreport => hsound.reports _ hreport report rfl

/-- A member that dialed in and has lost its line. -/
def lostPeer : Peer :=
  { Peer.start 1 Life.inboundLink {} with state := .reconnecting, session := none }

/-- The pool of a node whose only member has lost its line. -/
def lost (stage : Nat → Stage) : ConcurrentPool where
  world :=
    { pool := { Pool.empty {} [0] none with
        members := [lostPeer]
        nextId := 2
        told := [.joined 1 Life.inboundLink.endpoint] } }
  stage := stage
  links := [Life.inboundLink]
  reports := [.admission (.ok (.added 1))]

theorem exists_run_lost :
    ∃ stage, Run (start {} [0] none {}) (lost stage) ∧ stage 1 = .dropping (some 0) := by
  have hlost := (@Run.refl (start {} [0] none {}))
    |>.step (.arrive Life.inboundLink nofun)
    |>.step (.ask (.add Life.inboundLink) fun _ hadd => by cases hadd; exact List.mem_cons_self)
    |>.step (@Step.offer _ [] [] _ _ rfl)
    |>.step (@Step.finish _ [] [] _ rfl)
    |>.step (.supervise List.mem_cons_self (.stop rfl (.io "reset")) rfl)
    |>.step (.supervise List.mem_cons_self (.live rfl nofun) rfl)
    |>.step (.supervise List.mem_cons_self (.stay rfl rfl) rfl)
    |>.step (.supervise List.mem_cons_self (.lose rfl rfl) rfl)
  exact ⟨_, hlost, rfl⟩

/-- A member that lost its line and was resumed on another. -/
theorem identities_resumed :
    ∃ s, Run (start {} [0] none {}) s ∧ s.world.pool.members.map (·.gist.line) = [some 1] ∧
      s.Lawful [0] := by
  obtain ⟨stage, hlost, -⟩ := exists_run_lost
  have hfresh : ∀ other ∈ (lost stage).links, other.line ≠ 1 := by
    intro other hother
    rw [List.mem_singleton.1 hother]
    decide
  have hresumed := hlost
    |>.step (.arrive { Life.inboundLink with line := 1 } hfresh)
    |>.step (.ask (.add { Life.inboundLink with line := 1 }) fun _ hadd => by
      cases hadd
      exact List.mem_cons_self)
    |>.step (@Step.offer _ [] [] _ _ rfl)
  exact ⟨_, hresumed, rfl, identities_of_run hresumed⟩

end ConcurrentPool

end Overlay
