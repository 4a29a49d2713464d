import Overlay.Proofs.Pool.Procedure

/-!
# Calls that only concern members

Most sections of the calls on a pool take members out or hand them messages, and keep, tell and hear
what comes of that.  They leave alone by what policy the pool goes, which ids it has given out, what
it knows of nodes that are no members, and which flags are claimed.
-/

namespace Overlay

open Wire

/-- Nothing of a pool has changed but its members, and what is stored, told and heard of them. -/
def Pool.Regroups (pool after : Pool) : Prop :=
  ∃ members store exchanges told verdicts tickets, after =
    { pool with members, store, exchanges, told, verdicts, tickets }

theorem Pool.regroups_refl (pool : Pool) : pool.Regroups pool :=
  ⟨_, _, _, _, _, _, rfl⟩

theorem World.regroups_broadcastAndWait (world : World) (message : Message) :
    world.pool.Regroups (world.broadcastAndWait message).2.pool := by
  obtain ⟨members, tickets, verdicts, hpool⟩ := world.exists_broadcastAndWait message
  exact ⟨members, _, _, _, verdicts, tickets, hpool⟩

namespace Procedure

variable {α β : Type}

/-- No section that is left changes more than what concerns members. -/
def Regroups : Procedure α → Prop
  | .done _ => True
  | .act f next => ∀ world : World, world.pool.Regroups (f world).pool ∧ (next world).Regroups
  | .offer _ next => ∀ result, (next result).Regroups
  | .dial _ next => ∀ outcome, (next outcome).Regroups

theorem regroups_pure (result : α) : (pure result : Procedure α).Regroups :=
  trivial

theorem regroups_bind {call : Procedure α} {next : α → Procedure β} (hcall : call.Regroups)
    (hnext : ∀ result, (next result).Regroups) : (call >>= next).Regroups := by
  show (call.bind next).Regroups
  induction call with
  | done result => exact hnext result
  | act f rest ih => exact fun world => ⟨(hcall world).1, ih world (hcall world).2⟩
  | offer link rest ih => exact fun result => ih result (hcall result)
  | dial e rest ih => exact fun outcome => ih outcome (hcall outcome)

theorem regroups_look : look.Regroups :=
  fun _ => ⟨Pool.regroups_refl _, trivial⟩

theorem regroups_onNet (f : Net → Net) : (onNet f).Regroups :=
  fun _ => ⟨Pool.regroups_refl _, trivial⟩

theorem regroups_alter {f : Pool → Pool}
    (hkept : ∀ pool : Pool, pool.Regroups (f pool)) : (alter f).Regroups :=
  fun world => ⟨hkept world.pool, trivial⟩

theorem regroups_tell (event : PoolEvent) : (alter (·.tell event)).Regroups :=
  regroups_alter fun _ => ⟨_, _, _, _, _, _, rfl⟩

theorem regroups_take (id : Nat) : (take id).Regroups :=
  fun _ => ⟨⟨_, _, _, _, _, _, rfl⟩, trivial⟩

theorem regroups_farewell (goodbye : Bool) (peer : Peer) : (farewell goodbye peer).Regroups := by
  rw [farewell]
  split
  · exact fun _ => ⟨Pool.regroups_refl _, trivial⟩
  · exact regroups_pure peer

theorem regroups_dismiss (peer : Peer) (forget : Bool) : (dismiss peer forget).Regroups := by
  refine regroups_bind (regroups_onNet _) fun _ => regroups_bind ?_ fun _ => regroups_tell _
  refine regroups_alter fun pool => ?_
  cases forget
  · exact Pool.regroups_refl _
  · exact ⟨_, _, _, _, _, _, rfl⟩

theorem regroups_post (id : Nat) (message : Message) : (post id message).Regroups := by
  refine regroups_alter fun pool => ?_
  split
  · exact Pool.regroups_refl _
  · split
    · exact Pool.regroups_refl _
    · next after hsend =>
      obtain ⟨queued, -, rfl⟩ := Pool.exists_of_send hsend
      exact ⟨_, _, _, _, _, _, rfl⟩

theorem regroups_broadcast (message : Message) : (broadcast message).Regroups :=
  fun world => ⟨world.regroups_broadcastAndWait message, trivial⟩

/-! ## Calls -/

/-- What a dial and an offer do are no sections. -/
theorem regroups_connect (e : Endpoint) : (connect e).Regroups := by
  refine regroups_bind regroups_look fun world => ?_
  cases world.pool.atEndpoint? e with
  | some peer => exact regroups_pure _
  | none =>
      intro outcome
      cases outcome with
      | error cause => exact regroups_pure _
      | ok link => exact fun result => regroups_pure result

theorem regroups_takePeer (id : Nat) (goodbye forget : Bool) :
    (takePeer id goodbye forget).Regroups := by
  refine regroups_bind (regroups_take id) fun taken => ?_
  cases taken with
  | none => exact regroups_pure false
  | some peer =>
      exact regroups_bind (regroups_farewell goodbye peer) fun said =>
        regroups_bind (regroups_dismiss said forget) fun _ => regroups_pure true

theorem regroups_removeEndpoint (e : Endpoint) : (removeEndpoint e).Regroups := by
  refine regroups_bind regroups_look fun world => ?_
  cases world.pool.atEndpoint? e with
  | none => exact regroups_pure false
  | some peer => exact regroups_takePeer peer.id true true

theorem regroups_removeAll (ids : List Nat) : (removeAll ids).Regroups := by
  induction ids with
  | nil => exact regroups_pure []
  | cons id rest ih =>
      exact regroups_bind (regroups_takePeer id true true) fun _ =>
        regroups_bind ih fun _ => regroups_pure _

theorem regroups_removeDuplicates : removeDuplicates.Regroups :=
  regroups_bind regroups_look fun _ => regroups_bind (regroups_removeAll _) fun _ => regroups_pure _

theorem regroups_releaseBootNode : releaseBootNode.Regroups := by
  refine regroups_bind regroups_look fun world => ?_
  cases world.pool.bootNode with
  | none => exact regroups_pure false
  | some e => exact regroups_removeEndpoint e

theorem regroups_leaveAll (ids : List Nat) : (leaveAll ids).Regroups := by
  induction ids with
  | nil => exact regroups_pure ()
  | cons id rest ih => exact regroups_bind (regroups_takePeer id true false) fun _ => ih

theorem regroups_shutdown : shutdown.Regroups :=
  regroups_bind regroups_look fun _ => regroups_leaveAll _

theorem regroups_answerRequest (id : Nat) (message : Message) :
    (answerRequest id message).Regroups := by
  rw [answerRequest]
  split
  · exact regroups_pure ()
  · exact regroups_bind regroups_look fun _ => regroups_post id _

theorem regroups_acceptList (message : Message) : (acceptList message).Regroups := by
  rw [acceptList]
  split
  · exact regroups_pure ()
  · refine regroups_bind regroups_look fun world => ?_
    split
    · exact regroups_pure ()
    · exact regroups_alter fun _ => ⟨_, _, _, _, _, _, rfl⟩

theorem regroups_handleMessage (id : Nat) (message : Message) :
    (handleMessage id message).Regroups := by
  refine regroups_bind regroups_look fun world => ?_
  cases world.pool.member? id with
  | none => exact regroups_pure ()
  | some peer =>
      dsimp only
      split
      · exact regroups_answerRequest id message
      · exact regroups_acceptList message
      · exact regroups_bind (regroups_takePeer id false true) fun _ => regroups_pure ()
      · exact regroups_pure ()
      · exact regroups_tell _

end Procedure

end Overlay
