import Overlay.Proofs.Pool.Ledger
import Overlay.Proofs.Pool.Procedure

/-!
# Calls on a pool, one after the other

Here each call on a pool is complete before the next one begins.  Between its
sections the peers and their lines go their own ways, and dials end as they
will, but none of this enters anything in the ledger of the pool.  Over any
such succession of calls the members, what the application was told and the
store stay in step.
-/

namespace Overlay

open Wire

/-- The tags of the messages that a pool deals with itself. -/
def poolTags : List UInt8 :=
  [0, 1, 2, 6]

theorem mem_poolTags {tag : UInt8} : tag ∈ poolTags ↔
    MessageKind.ofTag? tag = some .handshake ∨ MessageKind.ofTag? tag = some .requestPeers ∨
      MessageKind.ofTag? tag = some .returnPeers ∨ MessageKind.ofTag? tag = some .disconnect := by
  have hsame (n : UInt8) : tag = n ↔ tag.toNat = n.toNat := UInt8.toNat_inj.symm
  simp only [poolTags, List.mem_cons, List.not_mem_nil, or_false, hsame, MessageKind.ofTag?]
  split <;> simp_all

namespace Procedure

/-- How a procedure goes while no other is under way.  Before each section, and at the end, anything
may have changed that the ledger does not show. -/
inductive Runs {α : Type} : Procedure α → World → α → World → Prop
  | done {result : α} {world after : World}
      (hmeanwhile : after.pool.ledger = world.pool.ledger) :
      Runs (.done result) world result after
  | act {f : World → World} {next : World → Procedure α} {world met after : World} {result : α}
      (hmeanwhile : met.pool.ledger = world.pool.ledger)
      (hrest : Runs (next met) (f met) result after) :
      Runs (.act f next) world result after
  | offer {link : Link} {next : Except NetError Admission → Procedure α}
      {world met after : World} {result : α} (hmeanwhile : met.pool.ledger = world.pool.ledger)
      (hrest : Runs (next (met.addPeer link).1) (met.addPeer link).2 result after) :
      Runs (.offer link next) world result after
  -- no peer can be started on the link.  The id was drawn before
  | unstarted {link : Link} {next : Except NetError Admission → Procedure α}
      {world met after : World} {result : α} (hmeanwhile : met.pool.ledger = world.pool.ledger)
      {id : Nat} (hadded : (met.addPeer link).1 = .ok (.added id)) (cause : NetError)
      (hrest : Runs (next (.error cause))
        (met.withPool fun pool => { pool with nextId := pool.nextId + 1 }) result after) :
      Runs (.offer link next) world result after
  -- no session can be opened on the link
  | unopened {link : Link} {next : Except NetError Admission → Procedure α}
      {world met after : World} {result : α} (hmeanwhile : met.pool.ledger = world.pool.ledger)
      {id : Nat} (hresumed : (met.addPeer link).1 = .ok (.resumed id)) (cause : NetError)
      (hrest : Runs (next (.error cause)) met result after) :
      Runs (.offer link next) world result after
  -- a dial ends as it will
  | dial {e : Endpoint} {next : Except NetError Link → Procedure α} {world met after : World}
      {result : α} (hmeanwhile : met.pool.ledger = world.pool.ledger)
      (outcome : Except NetError Link) (hrest : Runs (next outcome) met result after) :
      Runs (.dial e next) world result after

variable {α β : Type} {world after : World}

/-- What a call does with nothing in between is one way in which it goes, if its dials enter
nothing. -/
theorem runs_run (dial : Dial)
    (hdial : ∀ e world, (dial e world).2.pool.ledger = world.pool.ledger)
    (procedure : Procedure α) (world : World) :
    procedure.Runs world (procedure.run dial world).1 (procedure.run dial world).2 := by
  induction procedure generalizing world with
  | done result => exact .done rfl
  | act f next ih => exact .act rfl (ih world (f world))
  | offer link next ih => exact .offer rfl (ih (world.addPeer link).1 (world.addPeer link).2)
  | dial e next ih =>
      exact .dial (hdial e world) (dial e world).1 (ih (dial e world).1 (dial e world).2)

theorem runs_pure {value result : α} (hruns : (pure value : Procedure α).Runs world result after) :
    result = value ∧ after.pool.ledger = world.pool.ledger := by
  change Runs (.done value) world result after at hruns
  cases hruns with
  | done hmeanwhile => exact ⟨rfl, hmeanwhile⟩

theorem runs_bind {procedure : Procedure α} {next : α → Procedure β} {result : β}
    (hruns : (procedure >>= next).Runs world result after) :
    ∃ value middle, procedure.Runs world value middle ∧ (next value).Runs middle result after := by
  change (procedure.bind next).Runs world result after at hruns
  induction procedure generalizing world with
  | done value => exact ⟨value, world, .done rfl, hruns⟩
  | act f rest ih =>
      cases hruns with
      | act hmeanwhile hrest =>
          obtain ⟨value, middle, hfirst, hnext⟩ := ih _ hrest
          exact ⟨value, middle, .act hmeanwhile hfirst, hnext⟩
  | offer link rest ih =>
      cases hruns with
      | offer hmeanwhile hrest =>
          obtain ⟨value, middle, hfirst, hnext⟩ := ih _ hrest
          exact ⟨value, middle, .offer hmeanwhile hfirst, hnext⟩
      | unstarted hmeanwhile hadded cause hrest =>
          obtain ⟨value, middle, hfirst, hnext⟩ := ih _ hrest
          exact ⟨value, middle, .unstarted hmeanwhile hadded cause hfirst, hnext⟩
      | unopened hmeanwhile hresumed cause hrest =>
          obtain ⟨value, middle, hfirst, hnext⟩ := ih _ hrest
          exact ⟨value, middle, .unopened hmeanwhile hresumed cause hfirst, hnext⟩
  | dial e rest ih =>
      cases hruns with
      | dial hmeanwhile outcome hrest =>
          obtain ⟨value, middle, hfirst, hnext⟩ := ih _ hrest
          exact ⟨value, middle, .dial hmeanwhile outcome hfirst, hnext⟩

/-- A section shows what it met. -/
theorem runs_look {met : World} (hruns : look.Runs world met after) :
    met.pool.ledger = world.pool.ledger ∧ after.pool.ledger = world.pool.ledger := by
  cases hruns with
  | act hmeanwhile hrest =>
      cases hrest with
      | done hafter => exact ⟨hmeanwhile, hafter.trans hmeanwhile⟩

theorem runs_alter {f : Pool → Pool} {g : Ledger → Ledger}
    (hshown : ∀ pool, (f pool).ledger = g pool.ledger) {result : Unit}
    (hruns : (alter f).Runs world result after) :
    after.pool.ledger = g world.pool.ledger := by
  cases hruns with
  | act hmeanwhile hrest =>
      cases hrest with
      | done hafter =>
          rw [hafter, ← hmeanwhile]
          exact hshown _

/-! ## How a member is taken out -/

/-- A goodbye enters nothing, and leaves the card of the member. -/
theorem runs_farewell {goodbye : Bool} {peer said : Peer}
    (hruns : (farewell goodbye peer).Runs world said after) :
    said.card = peer.card ∧ after.pool.ledger = world.pool.ledger := by
  rw [farewell] at hruns
  split at hruns
  · cases hruns with
    | act hmeanwhile hrest =>
        cases hrest with
        | done hafter =>
            exact ⟨congrArg (·.toCard) (peer.gist_sayGoodbye _), hafter.trans hmeanwhile⟩
  · cases hruns with
    | done hafter => exact ⟨rfl, hafter⟩

theorem runs_onNet {f : Net → Net} {result : Unit} (hruns : (onNet f).Runs world result after) :
    after.pool.ledger = world.pool.ledger := by
  cases hruns with
  | act hmeanwhile hrest =>
      cases hrest with
      | done hafter => exact hafter.trans hmeanwhile

/-- Whoever is dismissed is out of the store if that is wanted, and the application is told. -/
theorem runs_dismiss {peer : Peer} {forget : Bool} {result : Unit}
    (hruns : (dismiss peer forget).Runs world result after) :
    after.pool.ledger = { world.pool.ledger with
      told := world.pool.ledger.told ++ [.left peer.card.id peer.card.endpoint]
      store :=
        if forget then world.pool.ledger.store.map (·.remove peer.card.endpoint)
        else world.pool.ledger.store } := by
  obtain ⟨_, ended, hend, hruns⟩ := runs_bind hruns
  obtain ⟨_, forgotten, hforget, htell⟩ := runs_bind hruns
  have hstore := runs_alter (g := fun ledger => { ledger with
    store := if forget then ledger.store.map (·.remove peer.endpoint) else ledger.store })
    (fun pool => by cases forget <;> rfl) hforget
  have htold := runs_alter (g := fun ledger => { ledger with
    told := ledger.told ++ [.left peer.id peer.endpoint] }) (fun _ => rfl) htell
  rw [htold, hstore, runs_onNet hend]
  rfl

/-- To take an id out finds the member of that id, which is then out of the list. -/
theorem runs_take {id : Nat} {found : Option Peer} (hruns : (take id).Runs world found after)
    (hstep : world.pool.ledger.InStep) :
    found.map Peer.card = world.pool.ledger.members.find? (·.id == id) ∧
      after.pool.ledger = { world.pool.ledger with
        members := world.pool.ledger.members.filter (·.id ≠ id) } := by
  cases hruns with
  | @act _ _ _ met _ _ hmeanwhile hrest =>
      cases hrest with
      | done hafter =>
          rw [← hmeanwhile] at hstep ⊢
          exact ⟨(met.pool.find?_members id).symm,
            hafter.trans (Pool.ledger_take (.of_ledger hstep) id)⟩

/-- A member that is taken out leaves.  If there is none of the id, nothing is entered. -/
theorem runs_takePeer {id : Nat} {goodbye forget taken : Bool}
    (hruns : (takePeer id goodbye forget).Runs world taken after)
    (hstep : world.pool.ledger.InStep) :
    (∀ card ∈ world.pool.ledger.members, card.id ≠ id) ∧
        after.pool.ledger = world.pool.ledger ∨
      ∃ card ∈ world.pool.ledger.members, card.id = id ∧
        after.pool.ledger = world.pool.ledger.enter (.leave card forget) := by
  obtain ⟨found, out, htake, hruns⟩ := runs_bind hruns
  obtain ⟨hfound, hout⟩ := runs_take htake hstep
  cases found with
  | none =>
      have hnobody : ∀ card ∈ world.pool.ledger.members, card.id ≠ id := by
        simpa using List.find?_eq_none.1 hfound.symm
      refine Or.inl ⟨hnobody, (runs_pure hruns).2.trans (hout.trans ?_)⟩
      rw [List.filter_eq_self.2 (by simpa using hnobody)]
  | some peer =>
      obtain ⟨said, parted, hfarewell, hruns⟩ := runs_bind hruns
      obtain ⟨hsaid, hparted⟩ := runs_farewell hfarewell
      obtain ⟨_, gone, hdismiss, hruns⟩ := runs_bind hruns
      have hid : peer.card.id = id := by simpa using List.find?_some hfound.symm
      refine Or.inr ⟨peer.card, List.mem_of_find?_eq_some hfound.symm, hid, ?_⟩
      rw [(runs_pure hruns).2, runs_dismiss hdismiss, hsaid, hparted, hout, ← hid]
      rfl

/-! ## Routine calls -/

/-- All that a call enters is routine, whatever comes in between. -/
def Routine (procedure : Procedure α) : Prop :=
  ∀ ⦃world : World⦄ ⦃result : α⦄ ⦃after : World⦄, procedure.Runs world result after →
    world.pool.ledger.InStep → ∃ entries, world.pool.ledger.Leads entries after.pool.ledger ∧
      ∀ entry ∈ entries, entry.IsRoutine

theorem routine_pure (value : α) : (pure value : Procedure α).Routine := by
  intro world result after hruns _
  obtain ⟨-, hafter⟩ := runs_pure hruns
  rw [hafter]
  exact ⟨[], .nil, nofun⟩

theorem routine_bind {procedure : Procedure α} {next : α → Procedure β}
    (hroutine : procedure.Routine) (hnext : ∀ value, (next value).Routine) :
    (procedure >>= next).Routine := by
  intro world result after hruns hstep
  obtain ⟨value, middle, hfirst, hrest⟩ := runs_bind hruns
  obtain ⟨entries, hleads, hentries⟩ := hroutine hfirst hstep
  obtain ⟨more, hon, hmore⟩ := hnext value hrest (hleads.inStep hstep)
  exact ⟨entries ++ more, hleads.append hon,
    fun entry hentry => (List.mem_append.1 hentry).elim (hentries entry) (hmore entry)⟩

/-- A section that enters nothing is routine. -/
theorem routine_act {f : World → World} {next : World → Procedure α}
    (hkept : ∀ world : World, world.pool.ledger.InStep →
      (f world).pool.ledger = world.pool.ledger)
    (hnext : ∀ world, (next world).Routine) : (Procedure.act f next).Routine := by
  intro world result after hruns hstep
  cases hruns with
  | @act _ _ _ met _ _ hmeanwhile hrest =>
      rw [← hmeanwhile] at hstep ⊢
      have hsame := hkept met hstep
      rw [← hsame] at hstep ⊢
      exact hnext met hrest hstep

theorem routine_look : look.Routine :=
  routine_act (fun _ _ => rfl) routine_pure

theorem routine_alter {f : Pool → Pool} (hkept : ∀ pool, (f pool).ledger = pool.ledger) :
    (alter f).Routine :=
  routine_act (fun _ _ => hkept _) fun _ => routine_pure ()

theorem routine_claim {claimed : Pool → Bool} {f : Pool → Pool}
    (hkept : ∀ pool, (f pool).ledger = pool.ledger) : (claim claimed f).Routine :=
  routine_act (fun _ _ => hkept _) fun _ => routine_pure _

theorem routine_post (id : Nat) (message : Message) : (post id message).Routine :=
  routine_act (fun _ hstep => World.ledger_post (.of_ledger hstep) id message) fun _ =>
    routine_pure ()

theorem routine_broadcast (message : Message) : (broadcast message).Routine :=
  routine_act (fun _ hstep => World.ledger_broadcastAndWait (.of_ledger hstep) message) fun _ =>
    routine_pure ()

theorem routine_reach (e : Endpoint) : (reach e).Routine := by
  intro world result after hruns hstep
  cases hruns with
  | dial hmeanwhile outcome hrest =>
      rw [← hmeanwhile] at hstep ⊢
      exact routine_pure outcome hrest hstep

/-- To offer a link enters that a node joins, that an id was drawn for nobody, or nothing. -/
theorem routine_offer {link : Link} {next : Except NetError Admission → Procedure α}
    (hnext : ∀ result, (next result).Routine) : (Procedure.offer link next).Routine := by
  intro world result after hruns hstep
  -- an entry before what comes next
  have henter (entry : Ledger.Entry) {met : World} (hadmits : world.pool.ledger.Admits entry)
      (hroutine : entry.IsRoutine) (hmet : met.pool.ledger = world.pool.ledger.enter entry)
      {admission : Except NetError Admission} (hrest : (next admission).Runs met result after) :
      ∃ entries, world.pool.ledger.Leads entries after.pool.ledger ∧
        ∀ entry ∈ entries, entry.IsRoutine := by
    obtain ⟨entries, hleads, hentries⟩ := hnext admission hrest (hmet ▸ hstep.enter hadmits)
    exact ⟨entry :: entries, .cons hadmits (hmet ▸ hleads), by
      simpa using ⟨hroutine, hentries⟩⟩
  cases hruns with
  | @offer _ _ _ met _ _ hmeanwhile hrest =>
      rw [← hmeanwhile] at hstep henter ⊢
      rcases World.ledger_addPeer (.of_ledger hstep) link with hsame | ⟨card, now, hadmits, hjoined⟩
      · rw [← hsame] at hstep ⊢
        exact hnext _ hrest hstep
      · exact henter _ hadmits trivial hjoined hrest
  | @unstarted _ _ _ met _ _ hmeanwhile id hadded cause hrest =>
      rw [← hmeanwhile] at henter ⊢
      exact henter .skip trivial trivial rfl hrest
  | unopened hmeanwhile hresumed cause hrest =>
      rw [← hmeanwhile] at hstep ⊢
      exact hnext _ hrest hstep

/-- To take out and forget a member is routine. -/
theorem routine_takePeer (id : Nat) (goodbye : Bool) : (takePeer id goodbye true).Routine := by
  intro world result after hruns hstep
  rcases runs_takePeer hruns hstep with ⟨-, hsame⟩ | ⟨card, hcard, -, hleft⟩
  · rw [hsame]
    exact ⟨[], .nil, nofun⟩
  · rw [hleft]
    exact ⟨[.leave card true], .single hcard, by simp [Ledger.Entry.IsRoutine]⟩

theorem routine_connect (e : Endpoint) : (connect e).Routine := by
  refine routine_bind routine_look fun world => ?_
  cases world.pool.atEndpoint? e with
  | some peer => exact routine_pure _
  | none =>
      refine routine_bind (routine_reach e) fun outcome => ?_
      cases outcome with
      | error cause => exact routine_pure _
      | ok link => exact routine_offer routine_pure

theorem routine_removeEndpoint (e : Endpoint) : (removeEndpoint e).Routine := by
  refine routine_bind routine_look fun world => ?_
  cases world.pool.atEndpoint? e with
  | none => exact routine_pure _
  | some peer => exact routine_takePeer peer.id true

theorem routine_removeAll (ids : List Nat) : (removeAll ids).Routine := by
  induction ids with
  | nil => exact routine_pure _
  | cons id rest ih =>
      exact routine_bind (routine_takePeer id true) fun _ => routine_bind ih fun _ => routine_pure _

theorem routine_removeDuplicates : removeDuplicates.Routine :=
  routine_bind routine_look fun _ => routine_bind (routine_removeAll _) fun _ => routine_pure _

theorem routine_bootstrapFrom (endpoints : List Endpoint) :
    (bootstrapFrom endpoints).Routine := by
  induction endpoints with
  | nil => exact routine_pure _
  | cons e rest ih =>
      refine routine_bind (routine_connect e) fun result => ?_
      cases result with
      | ok admission =>
          refine routine_bind (routine_alter fun pool => ?_) fun _ => routine_pure _
          split <;> rfl
      | error cause =>
          refine routine_bind (routine_alter fun pool => ?_) fun _ => ih
          split <;> rfl

theorem routine_bootstrap : bootstrap.Routine :=
  routine_bind routine_look fun _ => routine_bind routine_look fun _ => routine_bootstrapFrom _

theorem routine_releaseBootNode : releaseBootNode.Routine := by
  refine routine_bind routine_look fun world => ?_
  cases world.pool.bootNode with
  | none => exact routine_pure _
  | some e => exact routine_removeEndpoint e

theorem routine_anchor (report : UpkeepReport) : (anchor report).Routine := by
  refine routine_bind routine_look fun world => ?_
  split
  · exact routine_bind routine_bootstrap fun _ => routine_pure _
  · refine routine_bind routine_look fun world => ?_
    dsimp only
    split
    · exact routine_bind routine_releaseBootNode fun _ => routine_pure _
    · exact routine_pure _

theorem routine_balance (report : UpkeepReport) : (balance report).Routine := by
  refine routine_bind routine_look fun world => ?_
  dsimp only
  split
  · refine routine_bind (routine_alter fun _ => rfl) fun _ => ?_
    exact routine_bind (routine_broadcast _) fun _ => routine_pure _
  · refine routine_bind routine_look fun world => ?_
    exact routine_bind (routine_removeAll _) fun _ => routine_pure _

theorem routine_maintain : maintain.Routine := by
  refine routine_bind routine_look fun world => ?_
  split
  · exact routine_pure _
  · refine routine_bind (routine_claim fun _ => rfl) fun claimed => ?_
    split
    · refine routine_bind (routine_anchor {}) fun anchored => ?_
      refine routine_bind (routine_balance anchored) fun balanced => ?_
      refine routine_bind routine_removeDuplicates fun duplicates => ?_
      split
      · exact routine_pure _
      · exact routine_bind (routine_alter fun _ => rfl) fun _ => routine_pure _
    · exact routine_pure _

theorem routine_joinAll (endpoints : List Endpoint) : (joinAll endpoints).Routine := by
  induction endpoints with
  | nil => exact routine_pure _
  | cons e rest ih =>
      refine routine_bind routine_look fun world => ?_
      dsimp only
      split
      · exact ih
      · refine routine_bind (routine_alter fun _ => rfl) fun _ => ?_
        refine routine_bind (routine_connect e) fun result => routine_bind ih fun count => ?_
        split <;> exact routine_pure _

theorem routine_receivePeers (endpoints : List Endpoint) : (receivePeers endpoints).Routine := by
  refine routine_bind routine_look fun world => ?_
  split
  · exact routine_pure _
  · refine routine_bind (routine_claim fun _ => rfl) fun claimed => ?_
    split
    · refine routine_bind (routine_joinAll endpoints) fun count => ?_
      exact routine_bind (routine_alter fun _ => rfl) fun _ => routine_pure _
    · exact routine_pure _

theorem routine_answerRequest (id : Nat) (message : Message) :
    (answerRequest id message).Routine := by
  rw [answerRequest]
  split
  · exact routine_pure _
  · exact routine_bind routine_look fun _ => routine_post id _

theorem routine_acceptList (message : Message) : (acceptList message).Routine := by
  rw [acceptList]
  split
  · exact routine_pure _
  · refine routine_bind routine_look fun world => ?_
    split
    · exact routine_pure _
    · exact routine_alter fun _ => rfl

/-- A peer that is lost is forgotten. -/
theorem routine_unreachable (id : Nat) (cause : NetError) :
    (handle (.unreachable id cause)).Routine := by
  refine routine_bind routine_look fun world => ?_
  cases world.pool.member? id with
  | none => exact routine_bind (routine_takePeer id false) fun _ => routine_pure _
  | some peer =>
      refine routine_bind (routine_alter fun _ => rfl) fun _ => ?_
      exact routine_bind (routine_takePeer id false) fun _ => routine_pure _

/-! ## Messages and the end -/

/-- A message that the pool deals with itself is not passed on. -/
theorem routine_handleMessage (id : Nat) {message : Message} (htag : message.tag ∈ poolTags) :
    (handleMessage id message).Routine := by
  refine routine_bind routine_look fun world => ?_
  cases world.pool.member? id with
  | none => exact routine_pure _
  | some peer =>
      dsimp only
      split
      · exact routine_answerRequest id message
      · exact routine_acceptList message
      · exact routine_bind (routine_takePeer id false) fun _ => routine_pure _
      · exact routine_pure _
      · next hrequest hlist hgoodbye hgreeting =>
        rcases mem_poolTags.1 htag with hkind | hkind | hkind | hkind
        exacts [(hgreeting hkind).elim, (hrequest hkind).elim, (hlist hkind).elim,
          (hgoodbye hkind).elim]

/-- Any other message is passed on if it is that of a member. -/
theorem runs_handleMessage {id : Nat} {message : Message} (htag : message.tag ∉ poolTags)
    {result : Unit} (hruns : (handleMessage id message).Runs world result after) :
    after.pool.ledger = (world.pool.ledger.members.find? (·.id == id)).elim world.pool.ledger
      fun card => world.pool.ledger.enter (.deliver card message) := by
  obtain ⟨met, looked, hlook, hruns⟩ := runs_bind hruns
  obtain ⟨hmet, hlooked⟩ := runs_look hlook
  rw [← hlooked, show looked.pool.ledger.members = met.pool.ledger.members by rw [hlooked, hmet],
    met.pool.find?_members]
  rw [mem_poolTags] at htag
  cases hmember : met.pool.member? id with
  | none =>
      rw [hmember] at hruns
      exact (runs_pure hruns).2
  | some peer =>
      rw [hmember] at hruns
      dsimp only at hruns
      split at hruns
      · next hkind => simp [hkind] at htag
      · next hkind => simp [hkind] at htag
      · next hkind => simp [hkind] at htag
      · next hkind => simp [hkind] at htag
      · rw [← Pool.id_of_member? hmember] at hruns
        exact runs_alter (g := (·.enter (.deliver peer.card message))) (fun _ => rfl) hruns

/-- Members that are taken out at the end all leave, and none is forgotten. -/
theorem runs_leaveAll {ids : List Nat} {result : Unit}
    (hruns : (leaveAll ids).Runs world result after) (hstep : world.pool.ledger.InStep) :
    after.pool.ledger.members = world.pool.ledger.members.filter (·.id ∉ ids) ∧
      ∃ entries, world.pool.ledger.Leads entries after.pool.ledger ∧
        ∀ entry ∈ entries, ∃ card, entry = .leave card false := by
  induction ids generalizing world with
  | nil =>
      rw [(runs_pure hruns).2]
      exact ⟨by simp, [], .nil, nofun⟩
  | cons id rest ih =>
      obtain ⟨taken, middle, htake, hrest⟩ := runs_bind hruns
      rcases runs_takePeer htake hstep with ⟨hnobody, hsame⟩ | ⟨card, hcard, rfl, hleft⟩
      · rw [← hsame] at hstep hnobody ⊢
        obtain ⟨hmembers, hentries⟩ := ih hrest hstep
        refine ⟨hmembers.trans (List.filter_congr fun other hother => ?_), hentries⟩
        simp [hnobody other hother]
      · have hadmits : world.pool.ledger.Admits (.leave card false) := hcard
        obtain ⟨hmembers, entries, hleads, hentries⟩ := ih hrest (hleft ▸ hstep.enter hadmits)
        refine ⟨?_, .leave card false :: entries, .cons hadmits (hleft ▸ hleads), ?_⟩
        · rw [hmembers, hleft]
          simp [Ledger.enter, List.filter_filter, Bool.and_comm]
        · simpa using hentries

/-- A shutdown leaves no member. -/
theorem runs_shutdown {result : Unit} (hruns : shutdown.Runs world result after)
    (hstep : world.pool.ledger.InStep) :
    after.pool.ledger.members = [] ∧
      ∃ entries, world.pool.ledger.Leads entries after.pool.ledger ∧
        ∀ entry ∈ entries, ∃ card, entry = .leave card false := by
  obtain ⟨met, looked, hlook, hleave⟩ := runs_bind hruns
  obtain ⟨hmet, hlooked⟩ := runs_look hlook
  rw [← hlooked] at hstep ⊢
  obtain ⟨hmembers, hentries⟩ := runs_leaveAll hleave hstep
  refine ⟨hmembers.trans (List.filter_eq_nil_iff.2 fun card hcard => ?_), hentries⟩
  rw [hlooked, ← hmet] at hcard
  obtain ⟨peer, hmember, rfl⟩ := List.mem_map.1 hcard
  simpa using ⟨peer, hmember, rfl⟩

end Procedure

/-! ## What every task keeps to -/

/-- Which messages the application is told of by a task: the one that is handled, if it is that of a
member and the pool does not deal with it itself. -/
def Ledger.deliveries (ledger : Ledger) : Task → List PoolEvent
  | .handle (.message id message) =>
    if message.tag ∈ poolTags then []
    else (ledger.members.find? (·.id == id)).toList.map fun card =>
      .message id card.endpoint message
  | _ => []

/-- What a task has done to a ledger, and what the application was told meanwhile. -/
structure Kept (task : Task) (before after : Ledger) (fresh : List PoolEvent) : Prop where
  told : after.told = before.told ++ fresh
  delivered : fresh.filter (·.isMessage) = before.deliveries task
  hasStore : after.store.isSome = before.store.isSome
  /-- An endpoint leaves the store only when its member leaves, and not at a shutdown. -/
  forgotten : ∀ e, before.Knows e → ¬ after.Knows e → task ≠ .shutdown ∧ ∃ id, .left id e ∈ fresh
  shut : task = .shutdown → after.members = [] ∧ after.store = before.store

namespace Task

variable {task : Task} {world after : World} {report : Report} {before last : Ledger}
  {entries : List Ledger.Entry}

open Procedure in
/-- All that a task enters is routine, unless it may pass a message on or is the last. -/
theorem routine (hshut : task ≠ .shutdown)
    (hown : ∀ id message, task = .handle (.message id message) → message.tag ∈ poolTags) :
    task.procedure.Routine := by
  cases task with
  | add link => exact routine_offer fun _ => routine_pure _
  | connect e => exact routine_bind (routine_connect e) fun _ => routine_pure _
  | remove id => exact routine_bind (routine_takePeer id true) fun _ => routine_pure _
  | removeEndpoint e => exact routine_bind (routine_removeEndpoint e) fun _ => routine_pure _
  | removeDuplicates => exact routine_bind routine_removeDuplicates fun _ => routine_pure _
  | handle event =>
      refine routine_bind ?_ fun _ => routine_pure _
      cases event with
      | message id message => exact routine_handleMessage id (hown id message rfl)
      | reconnected id => exact routine_pure _
      | unreachable id cause => exact routine_unreachable id cause
  | maintain => exact routine_bind routine_maintain fun _ => routine_pure _
  | receive endpoints => exact routine_bind (routine_receivePeers endpoints) fun _ => routine_pure _
  | bootstrap => exact routine_bind routine_bootstrap fun _ => routine_pure _
  | shutdown => exact absurd rfl hshut

/-- A task that is not the last keeps to everything if it passes on what it should. -/
theorem kept_of_leads (hleads : before.Leads entries last) (hshut : task ≠ .shutdown)
    (hdelivered : (entries.flatMap (·.events)).filter (·.isMessage) = before.deliveries task) :
    Kept task before last (entries.flatMap (·.events)) where
  told := hleads.told
  delivered := hdelivered
  hasStore := hleads.isSome_store
  forgotten := fun e hknows hforgotten => by
    obtain ⟨card, hleft, rfl⟩ := hleads.forgotten hknows hforgotten
    exact ⟨hshut, card.id, List.mem_flatMap.2 ⟨_, hleft, List.mem_cons_self⟩⟩
  shut := fun hlast => absurd hlast hshut

theorem kept_of_routine (hruns : task.procedure.Runs world report after)
    (hstep : world.pool.ledger.InStep) (hroutine : task.procedure.Routine)
    (hshut : task ≠ .shutdown) (hnone : world.pool.ledger.deliveries task = []) :
    ∃ entries, world.pool.ledger.Leads entries after.pool.ledger ∧
      Kept task world.pool.ledger after.pool.ledger (entries.flatMap (·.events)) := by
  obtain ⟨entries, hleads, hentries⟩ := hroutine hruns hstep
  refine ⟨entries, hleads, kept_of_leads hleads hshut ?_⟩
  rw [hnone, List.filter_eq_nil_iff]
  intro event hevent
  obtain ⟨entry, hentry, htold⟩ := List.mem_flatMap.1 hevent
  simpa using (hentries entry hentry).isMessage_eq_false event htold

/-- A message that the pool does not deal with itself is passed on once if it is that of a member,
and otherwise not at all. -/
theorem kept_message {id : Nat} {message : Message} (htag : message.tag ∉ poolTags)
    (hruns : (handle (.message id message)).procedure.Runs world report after) :
    ∃ entries, world.pool.ledger.Leads entries after.pool.ledger ∧
      Kept (.handle (.message id message)) world.pool.ledger after.pool.ledger
        (entries.flatMap (·.events)) := by
  obtain ⟨_, handled, hhandle, hdone⟩ := Procedure.runs_bind hruns
  rw [(Procedure.runs_pure hdone).2, Procedure.runs_handleMessage htag hhandle]
  cases hfound : world.pool.ledger.members.find? (·.id == id) with
  | none =>
      refine ⟨[], .nil, kept_of_leads .nil nofun ?_⟩
      simp [Ledger.deliveries, htag, hfound]
  | some card =>
      have hid : card.id = id := by simpa using List.find?_some hfound
      have hleads : world.pool.ledger.Leads [.deliver card message] _ :=
        .single (List.mem_of_find?_eq_some hfound)
      refine ⟨_, hleads, kept_of_leads hleads nofun ?_⟩
      simp [Ledger.deliveries, htag, hfound, Ledger.Entry.events, PoolEvent.isMessage, hid]

/-- A shutdown leaves no member and the store as it was. -/
theorem kept_shutdown (hruns : shutdown.procedure.Runs world report after)
    (hstep : world.pool.ledger.InStep) :
    ∃ entries, world.pool.ledger.Leads entries after.pool.ledger ∧
      Kept .shutdown world.pool.ledger after.pool.ledger (entries.flatMap (·.events)) := by
  obtain ⟨_, last, hshut, hdone⟩ := Procedure.runs_bind hruns
  rw [(Procedure.runs_pure hdone).2]
  obtain ⟨hnobody, entries, hleads, hentries⟩ := Procedure.runs_shutdown hshut hstep
  refine ⟨entries, hleads, hleads.told, ?_, hleads.isSome_store, ?_,
    fun _ => ⟨hnobody, hleads.store_eq hentries⟩⟩
  · refine List.filter_eq_nil_iff.2 fun event hevent => ?_
    obtain ⟨entry, hentry, htold⟩ := List.mem_flatMap.1 hevent
    obtain ⟨card, rfl⟩ := hentries entry hentry
    simp [List.mem_singleton.1 htold, PoolEvent.isMessage]
  · intro e hknows hforgotten
    obtain ⟨card, hleft, -⟩ := hleads.forgotten hknows hforgotten
    obtain ⟨other, hsame⟩ := hentries _ hleft
    cases hsame

/-- What a task does alone is one way in which it goes, if its dials enter nothing. -/
theorem runs_alone (task : Task) (dial : Dial)
    (hdial : ∀ e world, (dial e world).2.pool.ledger = world.pool.ledger) (world : World) :
    task.procedure.Runs world (task.alone dial world).1 (task.alone dial world).2 := by
  rw [← task.run_procedure]
  exact Procedure.runs_run dial hdial task.procedure world

/-- Every task keeps to everything. -/
theorem exists_kept (hruns : task.procedure.Runs world report after)
    (hstep : world.pool.ledger.InStep) :
    ∃ entries, world.pool.ledger.Leads entries after.pool.ledger ∧
      Kept task world.pool.ledger after.pool.ledger (entries.flatMap (·.events)) := by
  by_cases hshut : task = .shutdown
  · subst hshut
    exact kept_shutdown hruns hstep
  · by_cases hpassed : ∃ id message, task = .handle (.message id message) ∧ message.tag ∉ poolTags
    · obtain ⟨id, message, rfl, htag⟩ := hpassed
      exact kept_message htag hruns
    · have hown : ∀ id message, task = .handle (.message id message) → message.tag ∈ poolTags :=
        fun id message htask => of_not_not fun htag => hpassed ⟨id, message, htask, htag⟩
      refine kept_of_routine hruns hstep (routine hshut hown) hshut ?_
      rw [Ledger.deliveries.eq_def]
      split
      · next id message => exact if_pos (hown id message rfl)
      · rfl

end Task

/-! ## Any number of tasks -/

/-- What a world leads to if tasks are done one after the other. -/
inductive Succession (first : World) : World → Prop
  | refl : Succession first first
  | step {world after : World} (hsuccession : Succession first world) {task : Task}
      {report : Report} (hruns : task.procedure.Runs world report after) : Succession first after

namespace Succession

variable {policy : PoolPolicy} {localKey : Bytes} {store : Option PeerStore} {net : Net}
  {first world : World}

theorem inStep (hsuccession : Succession first world) (hfirst : first.pool.ledger.InStep) :
    world.pool.ledger.InStep ∧ world.pool.store.isSome = first.pool.store.isSome := by
  induction hsuccession with
  | refl => exact ⟨hfirst, rfl⟩
  | step _ hruns ih =>
      obtain ⟨hstep, hstore⟩ := ih
      obtain ⟨entries, hleads, hkept⟩ := Task.exists_kept hruns hstep
      exact ⟨hleads.inStep hstep, hkept.hasStore.trans hstore⟩

theorem inStep_empty (policy : PoolPolicy) (localKey : Bytes) (store : Option PeerStore) :
    (Pool.empty policy localKey store).ledger.InStep where
  apart := List.Pairwise.nil
  drawn := nofun
  foreign := nofun
  known := nofun
  present := nofun
  past := fun _ _ => Or.inl rfl
  order := rfl
  stored := fun _ _ => nofun

/-- **A pool that started empty is in step after any number of tasks.**  Of every peer the
application was told that it joined, then of its messages, and at last that it left if it has.  The
members are those that joined and have not left, in the order in which they joined, and the store
knows their endpoints.  Of every further task the application is told the one message that it
handles, if it is that of a member and the pool does not deal with it itself, and no other.  An
endpoint leaves the store only when its member leaves, and a shutdown leaves no member and the
store as it was. -/
theorem inStep_and_kept
    (hsuccession : Succession { pool := .empty policy localKey store, net } world) :
    world.pool.ledger.InStep ∧ world.pool.store.isSome = store.isSome ∧
      ∀ task report after, task.procedure.Runs world report after →
        ∃ fresh, Kept task world.pool.ledger after.pool.ledger fresh := by
  obtain ⟨hstep, hstore⟩ := hsuccession.inStep (inStep_empty policy localKey store)
  refine ⟨hstep, hstore, fun task report after hruns => ?_⟩
  obtain ⟨entries, -, hkept⟩ := Task.exists_kept hruns hstep
  exact ⟨_, hkept⟩

/-- A node joins, says something and leaves at a shutdown. -/
theorem inStep_and_kept_shutdown :
    ∃ world after, Succession { pool := .empty {} [0] (some {}) } world ∧
      world.pool.told = [.joined 1 ⟨"b", 7000⟩, .message 1 ⟨"b", 7000⟩ ⟨9, .ofBytes [7]⟩] ∧
      world.pool.ledger.InStep ∧ world.pool.store.isSome = true ∧
      Task.shutdown.procedure.Runs world .shut after ∧
      after.pool.told = world.pool.told ++ [.left 1 ⟨"b", 7000⟩] ∧
      ∃ fresh, Kept .shutdown world.pool.ledger after.pool.ledger fresh := by
  let nobody : Dial := fun _ world => (.error (.io "refused"), world)
  have hruns (task : Task) (world : World) := task.runs_alone nobody (fun _ _ => rfl) world
  have hsuccession := (@Succession.refl { pool := .empty {} [0] (some {}) })
    |>.step (hruns (.add Life.inboundLink) _)
    |>.step (hruns (.handle (.message 1 ⟨9, .ofBytes [7]⟩)) _)
  obtain ⟨hstep, hstore, hkept⟩ := inStep_and_kept hsuccession
  exact ⟨_, _, hsuccession, rfl, hstep, hstore, hruns .shutdown _, rfl, hkept _ _ _ (hruns _ _)⟩

end Succession

end Overlay
