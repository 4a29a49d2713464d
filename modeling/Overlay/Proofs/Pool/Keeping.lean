import Overlay.Proofs.Pool.Procedure

/-!
# What calls on a pool keep to

Whatever comes in between, every section of a call finds an orderly pool and
takes some members out at most, and every link that it offers is one that it
was given or that came of its own dials.  No task reports that a duplicate was
removed.
-/

namespace Overlay

open Wire

namespace Procedure

variable {α β : Type} {Ends : α → Prop} {After : β → Prop} {known more : List Link}

/-- Every section that is left spares the members of an orderly pool, every link that is offered is
known or comes of a dial, and the result is as it should be. -/
def Keeps (Ends : α → Prop) : Procedure α → List Link → Prop
  | .done result, _ => Ends result
  | .act f next, known => ∀ world : World, world.pool.Orderly →
      world.Spares (f world) ∧ (next world).Keeps Ends known
  | .offer link next, known => link ∈ known ∧ ∀ result, (next result).Keeps Ends known
  | .dial _ next, known =>
      (∀ cause, (next (.error cause)).Keeps Ends known) ∧
        ∀ link, (next (.ok link)).Keeps Ends (link :: known)

theorem Keeps.mono {procedure : Procedure α} (hkeeps : procedure.Keeps Ends known)
    (hknown : known ⊆ more) : procedure.Keeps Ends more := by
  induction procedure generalizing known more with
  | done result => exact hkeeps
  | act f next ih =>
      intro world horderly
      obtain ⟨hspares, hnext⟩ := hkeeps world horderly
      exact ⟨hspares, ih world hnext hknown⟩
  | offer link next ih =>
      exact ⟨hknown hkeeps.1, fun result => ih result (hkeeps.2 result) hknown⟩
  | dial e next ih =>
      refine ⟨fun cause => ih _ (hkeeps.1 cause) hknown, fun link => ih _ (hkeeps.2 link) ?_⟩
      exact List.cons_subset_cons link hknown

theorem keeps_bind {procedure : Procedure α} {next : α → Procedure β}
    (hkeeps : procedure.Keeps Ends known)
    (hnext : ∀ result more, known ⊆ more → Ends result → (next result).Keeps After more) :
    (procedure >>= next).Keeps After known := by
  show (procedure.bind next).Keeps After known
  induction procedure generalizing known with
  | done result => exact hnext result known (List.Subset.refl known) hkeeps
  | act f rest ih =>
      intro world horderly
      obtain ⟨hspares, hrest⟩ := hkeeps world horderly
      exact ⟨hspares, ih world hrest hnext⟩
  | offer link rest ih =>
      exact ⟨hkeeps.1, fun result => ih result (hkeeps.2 result) hnext⟩
  | dial e rest ih =>
      refine ⟨fun cause => ih _ (hkeeps.1 cause) hnext, fun link => ih _ (hkeeps.2 link) ?_⟩
      exact fun result more hmore =>
        hnext result more (List.Subset.trans (List.subset_cons_self link known) hmore)

/-! ## Single sections -/

theorem keeps_look : Keeps (·.pool.Orderly) look known :=
  fun _ horderly => ⟨World.spares_of_eq rfl rfl rfl, horderly⟩

/-- A change that lets the members alone keeps to everything. -/
theorem keeps_alter {f : Pool → Pool} (hkept : ∀ pool, (f pool).members = pool.members ∧
      (f pool).nextId = pool.nextId ∧ (f pool).localKey = pool.localKey) :
    Keeps (fun _ => True) (alter f) known := by
  intro world _
  obtain ⟨hmembers, hnext, hkey⟩ := hkept world.pool
  exact ⟨World.spares_of_eq hmembers hnext hkey, trivial⟩

theorem keeps_onNet (f : Net → Net) : Keeps (fun _ => True) (onNet f) known :=
  fun _ _ => ⟨World.spares_of_eq rfl rfl rfl, trivial⟩

theorem keeps_claim {claimed : Pool → Bool} {f : Pool → Pool}
    (hkept : ∀ pool, (f pool).members = pool.members ∧
      (f pool).nextId = pool.nextId ∧ (f pool).localKey = pool.localKey) :
    Keeps (fun _ => True) (claim claimed f) known := by
  intro world _
  obtain ⟨hmembers, hnext, hkey⟩ := hkept world.pool
  exact ⟨World.spares_of_eq hmembers hnext hkey, trivial⟩

theorem keeps_releaseUpkeep : Keeps (fun _ => True) releaseUpkeep known :=
  keeps_alter fun _ => ⟨rfl, rfl, rfl⟩

theorem keeps_releaseExchange : Keeps (fun _ => True) releaseExchange known :=
  keeps_alter fun _ => ⟨rfl, rfl, rfl⟩

theorem keeps_take (id : Nat) : Keeps (fun _ => True) (take id) known :=
  fun _ _ => ⟨World.spares_take id, trivial⟩

theorem keeps_farewell (goodbye : Bool) (peer : Peer) :
    Keeps (fun _ => True) (farewell goodbye peer) known := by
  rw [farewell]
  split
  · exact fun _ _ => ⟨World.spares_of_eq rfl rfl rfl, trivial⟩
  · exact trivial

theorem keeps_dismiss (peer : Peer) (forget : Bool) :
    Keeps (fun _ => True) (dismiss peer forget) known := by
  refine keeps_bind (keeps_onNet _) fun _ more _ _ => ?_
  have hforget : Keeps (fun _ => True) (alter fun pool =>
      if forget then { pool with store := pool.store.map (·.remove peer.endpoint) } else pool)
      more := by
    refine keeps_alter fun pool => ?_
    split <;> exact ⟨rfl, rfl, rfl⟩
  exact keeps_bind hforget fun _ _ _ _ => keeps_alter fun _ => ⟨rfl, rfl, rfl⟩

theorem keeps_post (id : Nat) (message : Message) :
    Keeps (fun _ => True) (post id message) known :=
  fun _ horderly => ⟨World.spares_post horderly id message, trivial⟩

theorem keeps_broadcast (message : Message) : Keeps (fun _ => True) (broadcast message) known :=
  fun _ horderly => ⟨World.spares_broadcastAndWait horderly message, trivial⟩

/-! ## Calls -/

theorem keeps_connect (e : Endpoint) : Keeps (fun _ => True) (connect e) known := by
  refine keeps_bind keeps_look fun world more _ _ => ?_
  cases world.pool.atEndpoint? e with
  | some peer => exact trivial
  | none =>
      -- the link that is offered is the one that has just come of the dial
      exact ⟨fun cause => trivial, fun link => ⟨List.mem_cons_self, fun result => trivial⟩⟩

theorem keeps_takePeer (id : Nat) (goodbye forget : Bool) :
    Keeps (fun _ => True) (takePeer id goodbye forget) known := by
  refine keeps_bind (keeps_take id) fun taken more _ _ => ?_
  cases taken with
  | none => exact trivial
  | some peer =>
      refine keeps_bind (keeps_farewell goodbye peer) fun peer more _ _ => ?_
      exact keeps_bind (keeps_dismiss peer forget) fun _ _ _ _ => trivial

theorem keeps_removeEndpoint (e : Endpoint) :
    Keeps (fun _ => True) (removeEndpoint e) known := by
  refine keeps_bind keeps_look fun world more _ _ => ?_
  cases world.pool.atEndpoint? e with
  | none => exact trivial
  | some peer => exact keeps_takePeer peer.id true true

theorem keeps_removeAll (ids : List Nat) : Keeps (fun _ => True) (removeAll ids) known := by
  induction ids generalizing known with
  | nil => exact trivial
  | cons id rest ih =>
      refine keeps_bind (keeps_takePeer id true true) fun removed more _ _ => ?_
      exact keeps_bind ih fun _ _ _ _ => trivial

/-- An orderly pool has no duplicates to remove. -/
theorem keeps_removeDuplicates : Keeps (fun count => count = 0) removeDuplicates known := by
  refine keeps_bind keeps_look fun world more _ horderly => ?_
  rw [horderly.duplicates_eq_nil]
  exact rfl

theorem keeps_bootstrapFrom (endpoints : List Endpoint) :
    Keeps (fun _ => True) (bootstrapFrom endpoints) known := by
  induction endpoints generalizing known with
  | nil => exact trivial
  | cons e rest ih =>
      refine keeps_bind (keeps_connect e) fun result more _ _ => ?_
      cases result with
      | ok admission =>
          refine keeps_bind (keeps_alter fun pool => ?_) fun _ _ _ _ => trivial
          split <;> exact ⟨rfl, rfl, rfl⟩
      | error cause =>
          refine keeps_bind (keeps_alter fun pool => ?_) fun _ _ _ _ => ih
          split <;> exact ⟨rfl, rfl, rfl⟩

theorem keeps_bootstrap : Keeps (fun _ => True) bootstrap known := by
  refine keeps_bind keeps_look fun first more _ _ => ?_
  exact keeps_bind keeps_look fun second more _ _ => keeps_bootstrapFrom _

theorem keeps_releaseBootNode : Keeps (fun _ => True) releaseBootNode known := by
  refine keeps_bind keeps_look fun world more _ _ => ?_
  cases world.pool.bootNode with
  | none => exact trivial
  | some e => exact keeps_removeEndpoint e

theorem keeps_anchor (report : UpkeepReport) : Keeps (fun _ => True) (anchor report) known := by
  refine keeps_bind keeps_look fun world more _ _ => ?_
  split
  · exact keeps_bind keeps_bootstrap fun _ _ _ _ => trivial
  · refine keeps_bind keeps_look fun world more _ _ => ?_
    dsimp only
    split
    · exact keeps_bind keeps_releaseBootNode fun _ _ _ _ => trivial
    · exact trivial

theorem keeps_balance (report : UpkeepReport) : Keeps (fun _ => True) (balance report) known := by
  refine keeps_bind keeps_look fun world more _ _ => ?_
  dsimp only
  split
  · refine keeps_bind keeps_releaseUpkeep fun _ more _ _ => ?_
    exact keeps_bind (keeps_broadcast _) fun _ _ _ _ => trivial
  · refine keeps_bind keeps_look fun world more _ _ => ?_
    exact keeps_bind (keeps_removeAll _) fun _ _ _ _ => trivial

theorem keeps_maintain :
    Keeps (fun report => ∀ done, report = some done → done.duplicates = 0) maintain known := by
  refine keeps_bind keeps_look fun world more _ _ => ?_
  split
  · exact nofun
  · refine keeps_bind (keeps_claim fun _ => ⟨rfl, rfl, rfl⟩) fun claimed more _ _ => ?_
    split
    · refine keeps_bind (keeps_anchor {}) fun anchored more _ _ => ?_
      refine keeps_bind (keeps_balance anchored) fun balanced more _ _ => ?_
      refine keeps_bind keeps_removeDuplicates fun duplicates more _ hnone => ?_
      split
      · rintro done ⟨⟩
        exact hnone
      · refine keeps_bind keeps_releaseUpkeep fun _ more _ _ => ?_
        rintro done ⟨⟩
        exact hnone
    · exact nofun

theorem keeps_joinAll (endpoints : List Endpoint) :
    Keeps (fun _ => True) (joinAll endpoints) known := by
  induction endpoints generalizing known with
  | nil => exact trivial
  | cons e rest ih =>
      refine keeps_bind keeps_look fun world more _ _ => ?_
      dsimp only
      split
      · exact ih
      · refine keeps_bind (keeps_alter fun _ => ⟨rfl, rfl, rfl⟩) fun _ more _ _ => ?_
        refine keeps_bind (keeps_connect e) fun result more _ _ => ?_
        refine keeps_bind ih fun count more _ _ => ?_
        split <;> exact trivial

theorem keeps_receivePeers (endpoints : List Endpoint) :
    Keeps (fun _ => True) (receivePeers endpoints) known := by
  refine keeps_bind keeps_look fun world more _ _ => ?_
  split
  · exact trivial
  · refine keeps_bind (keeps_claim fun _ => ⟨rfl, rfl, rfl⟩) fun claimed more _ _ => ?_
    split
    · refine keeps_bind (keeps_joinAll endpoints) fun count more _ _ => ?_
      exact keeps_bind keeps_releaseExchange fun _ _ _ _ => trivial
    · exact trivial

theorem keeps_leaveAll (ids : List Nat) : Keeps (fun _ => True) (leaveAll ids) known := by
  induction ids generalizing known with
  | nil => exact trivial
  | cons id rest ih => exact keeps_bind (keeps_takePeer id true false) fun _ _ _ _ => ih

theorem keeps_shutdown : Keeps (fun _ => True) shutdown known :=
  keeps_bind keeps_look fun _ _ _ _ => keeps_leaveAll _

theorem keeps_answerRequest (id : Nat) (message : Message) :
    Keeps (fun _ => True) (answerRequest id message) known := by
  rw [answerRequest]
  split
  · exact trivial
  · exact keeps_bind keeps_look fun _ _ _ _ => keeps_post id _

theorem keeps_acceptList (message : Message) :
    Keeps (fun _ => True) (acceptList message) known := by
  rw [acceptList]
  split
  · exact trivial
  · refine keeps_bind keeps_look fun world more _ _ => ?_
    split
    · exact trivial
    · exact keeps_alter fun _ => ⟨rfl, rfl, rfl⟩

theorem keeps_handleMessage (id : Nat) (message : Message) :
    Keeps (fun _ => True) (handleMessage id message) known := by
  refine keeps_bind keeps_look fun world more _ _ => ?_
  cases world.pool.member? id with
  | none => exact trivial
  | some peer =>
      dsimp only
      split
      · exact keeps_answerRequest id message
      · exact keeps_acceptList message
      · exact keeps_bind (keeps_takePeer id false true) fun _ _ _ _ => trivial
      · exact trivial
      · exact keeps_alter fun _ => ⟨rfl, rfl, rfl⟩

theorem keeps_handle (event : PeerEvent) : Keeps (fun _ => True) (handle event) known := by
  cases event with
  | message id message => exact keeps_handleMessage id message
  | reconnected id => exact trivial
  | unreachable id cause =>
      refine keeps_bind keeps_look fun world more _ _ => ?_
      cases world.pool.member? id with
      | none => exact keeps_bind (keeps_takePeer id false true) fun _ _ _ _ => trivial
      | some peer =>
          refine keeps_bind (keeps_alter fun _ => ⟨rfl, rfl, rfl⟩) fun _ more _ _ => ?_
          exact keeps_bind (keeps_takePeer id false true) fun _ _ _ _ => trivial

end Procedure

/-- A report that no duplicate was removed. -/
def Report.Clean : Report → Prop
  | .duplicates count => count = 0
  | .upkeep report => ∀ done, report = some done → done.duplicates = 0
  | _ => True

open Procedure in
/-- Every task keeps to its links, and reports no duplicate. -/
theorem Task.keeps {task : Task} {known : List Link}
    (hlink : ∀ link, task = .add link → link ∈ known) : task.procedure.Keeps Report.Clean known := by
  cases task with
  | add link => exact ⟨hlink link rfl, fun result => trivial⟩
  | connect e => exact keeps_bind (keeps_connect e) fun _ _ _ _ => trivial
  | remove id => exact keeps_bind (keeps_takePeer id true true) fun _ _ _ _ => trivial
  | removeEndpoint e => exact keeps_bind (keeps_removeEndpoint e) fun _ _ _ _ => trivial
  | removeDuplicates => exact keeps_bind keeps_removeDuplicates fun _ _ _ hnone => hnone
  | handle event => exact keeps_bind (keeps_handle event) fun _ _ _ _ => trivial
  | maintain => exact keeps_bind keeps_maintain fun _ _ _ hnone => hnone
  | receive endpoints => exact keeps_bind (keeps_receivePeers endpoints) fun _ _ _ _ => trivial
  | bootstrap => exact keeps_bind keeps_bootstrap fun _ _ _ _ => trivial
  | shutdown => exact keeps_bind keeps_shutdown fun _ _ _ _ => trivial

end Overlay
