import Overlay.Proofs.Pool.Admission
import Overlay.Proofs.Pool.Regrouping

/-!
# What calls write down of nodes

Besides its members, a pool knows other nodes from its address book, and one that it prefers to
start from.  Few sections of the calls on it write there, and each has its grounds in what the call
has found before: endpoints are learned as they are heard of, one is forgotten if a bootstrap has
dialed it in vain or the member there was lost, and a configured one is preferred (`Booking`).
-/

namespace Overlay

/-- What came of a section, a dial or an offer of a call. -/
inductive Finding
  -- the world as a section found it
  | found (world : World)
  | dialed (e : Endpoint) (outcome : Except NetError Link)
  | offered (link : Link) (result : Except NetError Admission)

/-- The last that a call did was to dial an endpoint in vain: nobody answered, or the pool did not
take in who did. -/
inductive InVain (e : Endpoint) : List Finding → Prop
  | unanswered (cause : NetError) (findings : List Finding) :
      InVain e (.dialed e (.error cause) :: findings)
  | refused (link : Link) (cause : NetError) (findings : List Finding) :
      InVain e (.offered link (.error cause) :: .dialed e (.ok link) :: findings)

/-- The grounds on which a task forgets an endpoint, by what it has found so far, newest first. -/
inductive Grounds (bootnodes : List Endpoint) : Task → List Finding → Endpoint → Prop
  -- a bootstrap, on its own or in an upkeep, has dialed it in vain, and it is not configured
  | unavailable {task : Task} {findings : List Finding} {e : Endpoint}
      (hbootstrap : task = .bootstrap ∨ task = .maintain) (hother : e ∉ bootnodes)
      (hvain : InVain e findings) : Grounds bootnodes task findings e
  -- the member there is reported unreachable
  | lost {id : Nat} {cause : NetError} {world : World} {peer : Peer}
      (hmember : world.pool.member? id = some peer) :
      Grounds bootnodes (.handle (.unreachable id cause)) [.found world] peer.endpoint

/-- Two pools go by the same policy and know the same nodes, members apart. -/
structure Pool.SameBook (pool after : Pool) : Prop where
  policy : after.policy = pool.policy
  book : after.book = pool.book
  bootNode : after.bootNode = pool.bootNode

/-- What a section of a task writes down. -/
inductive Booking (policy : PoolPolicy) (task : Task) (findings : List Finding) (pool : Pool) :
    Pool → Prop
  | nothing {after : Pool} (hsame : pool.SameBook after) : Booking policy task findings pool after
  | learned {endpoints : List Endpoint} {e : Endpoint} (htask : task = .receive endpoints)
      (hheard : e ∈ endpoints) (hother : policy.selfEndpoint ≠ some e) :
      Booking policy task findings pool { pool with book := pool.book.learn e }
  | forgotten {e : Endpoint} (hgrounds : Grounds policy.bootnodes task findings e) :
      Booking policy task findings pool (pool.forget e)
  | preferred {e : Endpoint} (hconfigured : e ∈ policy.bootnodes) :
      Booking policy task findings pool { pool with bootNode := some e }

namespace Pool

variable {pool after : Pool}

theorem sameBook_refl (pool : Pool) : pool.SameBook pool :=
  ⟨rfl, rfl, rfl⟩

theorem Regroups.sameBook (hregroups : pool.Regroups after) : pool.SameBook after := by
  obtain ⟨members, store, exchanges, told, verdicts, tickets, rfl⟩ := hregroups
  exact ⟨rfl, rfl, rfl⟩

end Pool

/-- To take a link in writes nothing down but in the store. -/
theorem World.sameBook_addPeer (world : World) (link : Link) :
    world.pool.SameBook (world.addPeer link).2.pool := by
  rcases world.addPeer_cases link with ⟨-, -, -, hadded⟩ | ⟨-, peer, adopted, -, -, hresumed⟩ |
    ⟨hclosed, -⟩
  · rw [hadded]
    exact ⟨rfl, rfl, rfl⟩
  · rw [hresumed]
    exact ⟨rfl, rfl, rfl⟩
  · rw [hclosed]
    exact ⟨rfl, rfl, rfl⟩

theorem Booking.policy_eq {policy : PoolPolicy} {task : Task} {findings : List Finding}
    {pool after : Pool} (hbooking : Booking policy task findings pool after) :
    after.policy = pool.policy := by
  cases hbooking with
  | nothing hsame => exact hsame.policy
  | _ => rfl

namespace Procedure

variable {α β : Type} {policy : PoolPolicy} {task : Task} {findings : List Finding}
  {Ends : α → List Finding → Prop} {After : β → List Finding → Prop}

/-- Every section that is left writes down what it has grounds for, whatever it finds and whatever
comes of dials and offers; and the result is as it should be for what was found. -/
def Books (policy : PoolPolicy) (task : Task) (Ends : α → List Finding → Prop) :
    Procedure α → List Finding → Prop
  | .done result, findings => Ends result findings
  | .act f next, findings => ∀ world : World, world.pool.policy = policy →
      Booking policy task findings world.pool (f world).pool ∧
        (next world).Books policy task Ends (.found world :: findings)
  | .offer link next, findings => ∀ result,
      (next result).Books policy task Ends (.offered link result :: findings)
  | .dial e next, findings => ∀ outcome,
      (next outcome).Books policy task Ends (.dialed e outcome :: findings)

/-- No more is said of how a call ends. -/
def Anyhow (_ : α) (_ : List Finding) : Prop :=
  True

theorem books_pure (result : α) :
    (pure result : Procedure α).Books policy task Anyhow findings :=
  trivial

theorem books_bind {call : Procedure α} {next : α → Procedure β}
    (hcall : call.Books policy task Ends findings)
    (hnext : ∀ result findings, Ends result findings →
      (next result).Books policy task After findings) :
    (call >>= next).Books policy task After findings := by
  show (call.bind next).Books policy task After findings
  induction call generalizing findings with
  | done result => exact hnext result findings hcall
  | act f rest ih =>
      intro world hpolicy
      obtain ⟨hbooking, hrest⟩ := hcall world hpolicy
      exact ⟨hbooking, ih world hrest⟩
  | offer link rest ih => exact fun result => ih result (hcall result)
  | dial e rest ih => exact fun outcome => ih outcome (hcall outcome)

/-- What only concerns members writes nothing down. -/
theorem Regroups.books {call : Procedure α} (hregroups : call.Regroups) :
    call.Books policy task Anyhow findings := by
  induction call generalizing findings with
  | done result => exact trivial
  | act f next ih =>
      intro world _
      obtain ⟨hsection, hnext⟩ := hregroups world
      exact ⟨.nothing hsection.sameBook, ih world hnext⟩
  | offer link next ih => exact fun result => ih result (hregroups result)
  | dial e next ih => exact fun outcome => ih outcome (hregroups outcome)

/-! ## Single sections -/

theorem books_look : look.Books policy task
    (fun world after => world.pool.policy = policy ∧ after = .found world :: findings) findings :=
  fun world hpolicy => ⟨.nothing world.pool.sameBook_refl, hpolicy, rfl⟩

theorem books_alter {f : Pool → Pool} (hbooking : ∀ pool : Pool, pool.policy = policy →
      Booking policy task findings pool (f pool)) :
    (alter f).Books policy task Anyhow findings :=
  fun world hpolicy => ⟨hbooking world.pool hpolicy, trivial⟩

theorem books_claim {claimed : Pool → Bool} {f : Pool → Pool}
    (hsame : ∀ pool : Pool, pool.SameBook (f pool)) :
    (claim claimed f).Books policy task Anyhow findings :=
  fun world _ => ⟨.nothing (hsame world.pool), trivial⟩

theorem books_claimUpkeep : claimUpkeep.Books policy task Anyhow findings :=
  books_claim fun _ => ⟨rfl, rfl, rfl⟩

theorem books_releaseUpkeep : releaseUpkeep.Books policy task Anyhow findings :=
  books_alter fun _ _ => .nothing ⟨rfl, rfl, rfl⟩

theorem books_claimExchange : claimExchange.Books policy task Anyhow findings :=
  books_claim fun _ => ⟨rfl, rfl, rfl⟩

theorem books_releaseExchange : releaseExchange.Books policy task Anyhow findings :=
  books_alter fun _ _ => .nothing ⟨rfl, rfl, rfl⟩

/-! ## Calls -/

/-- A call that has failed to connect has just dialed in vain. -/
theorem books_connect (e : Endpoint) : (connect e).Books policy task
    (fun result after => ∀ cause, result = .error cause → InVain e after) findings := by
  refine books_bind books_look fun world after _ => ?_
  cases world.pool.atEndpoint? e with
  | some peer => exact nofun
  | none =>
      intro outcome
      cases outcome with
      | error cause => exact fun _ _ => .unanswered cause after
      | ok link =>
          rintro result cause rfl
          exact .refused link cause after

theorem books_bootstrapFrom (htask : task = .bootstrap ∨ task = .maintain)
    (endpoints : List Endpoint) :
    (bootstrapFrom endpoints).Books policy task Anyhow findings := by
  induction endpoints generalizing findings with
  | nil => exact books_pure Option.none
  | cons e rest ih =>
      refine books_bind (books_connect e) fun result after hvain => ?_
      cases result with
      | ok admission =>
          refine books_bind (books_alter fun pool hpolicy => ?_) fun _ _ _ => books_pure _
          split
          · next hconfigured => exact .preferred (hpolicy ▸ hconfigured)
          · exact .nothing pool.sameBook_refl
      | error cause =>
          refine books_bind (books_alter fun pool hpolicy => ?_) fun _ _ _ => ih
          split
          · exact .nothing pool.sameBook_refl
          · next hother =>
            exact .forgotten (.unavailable htask (hpolicy ▸ hother) (hvain cause rfl))

theorem books_bootstrap (htask : task = .bootstrap ∨ task = .maintain) :
    bootstrap.Books policy task Anyhow findings :=
  books_bind books_look fun _ _ _ => books_bind books_look fun _ _ _ =>
    books_bootstrapFrom htask _

theorem books_anchor (report : UpkeepReport) :
    (anchor report).Books policy .maintain Anyhow findings := by
  refine books_bind books_look fun world _ _ => ?_
  split
  · exact books_bind (books_bootstrap (Or.inr rfl)) fun _ _ _ => books_pure _
  · refine books_bind books_look fun world _ _ => ?_
    dsimp only
    split
    · exact books_bind regroups_releaseBootNode.books fun _ _ _ => books_pure _
    · exact books_pure report

theorem books_balance (report : UpkeepReport) :
    (balance report).Books policy .maintain Anyhow findings := by
  refine books_bind books_look fun world _ _ => ?_
  dsimp only
  split
  · refine books_bind books_releaseUpkeep fun _ _ _ => ?_
    exact books_bind (regroups_broadcast _).books fun _ _ _ => books_pure _
  · refine books_bind books_look fun world _ _ => ?_
    exact books_bind (regroups_removeAll _).books fun _ _ _ => books_pure _

theorem books_maintain : maintain.Books policy .maintain Anyhow findings := by
  refine books_bind books_look fun world _ _ => ?_
  split
  · exact books_pure Option.none
  · refine books_bind books_claimUpkeep fun claimed _ _ => ?_
    split
    · refine books_bind (books_anchor {}) fun anchored _ _ => ?_
      refine books_bind (books_balance anchored) fun balanced _ _ => ?_
      refine books_bind regroups_removeDuplicates.books fun duplicates _ _ => ?_
      split
      · exact books_pure _
      · exact books_bind books_releaseUpkeep fun _ _ _ => books_pure _
    · exact books_pure Option.none

/-- The endpoints that are left to dial are some of those that were heard of. -/
theorem books_joinAll {heard endpoints : List Endpoint} (hheard : endpoints ⊆ heard) :
    (joinAll endpoints).Books policy (.receive heard) Anyhow findings := by
  induction endpoints generalizing findings with
  | nil => exact books_pure 0
  | cons e rest ih =>
      obtain ⟨hfirst, hrest⟩ := List.cons_subset.1 hheard
      refine books_bind books_look fun world _ hfound => ?_
      dsimp only
      split
      · exact ih hrest
      · next hnew =>
        have hother : policy.selfEndpoint ≠ some e := by
          intro hself
          simp [Pool.isSelf, hfound.1, hself] at hnew
        refine books_bind (books_alter fun _ _ => .learned rfl hfirst hother) fun _ _ _ => ?_
        refine books_bind (books_connect e) fun result _ _ => ?_
        refine books_bind (ih hrest) fun count _ _ => ?_
        split <;> exact books_pure _

theorem books_receivePeers (endpoints : List Endpoint) :
    (receivePeers endpoints).Books policy (.receive endpoints) Anyhow findings := by
  refine books_bind books_look fun world _ _ => ?_
  split
  · exact books_pure 0
  · refine books_bind books_claimExchange fun claimed _ _ => ?_
    split
    · refine books_bind (books_joinAll (List.Subset.refl _)) fun count _ _ => ?_
      exact books_bind books_releaseExchange fun _ _ _ => books_pure _
    · exact books_pure 0

/-- A member that is lost is looked up first, and then its endpoint is forgotten. -/
theorem books_handle (event : PeerEvent) :
    (handle event).Books policy (.handle event) Anyhow [] := by
  cases event with
  | message id message => exact (regroups_handleMessage id message).books
  | reconnected id => exact books_pure ()
  | unreachable id cause =>
      refine books_bind books_look fun world after hfound => ?_
      cases hmember : world.pool.member? id with
      | none =>
          exact books_bind (regroups_takePeer id false true).books fun _ _ _ => books_pure ()
      | some peer =>
          rw [hfound.2]
          refine books_bind (books_alter fun _ _ => .forgotten (.lost hmember)) fun _ _ _ => ?_
          exact books_bind (regroups_takePeer id false true).books fun _ _ _ => books_pure ()

end Procedure

open Procedure in
/-- Every task writes down what it has grounds for. -/
theorem Task.books (policy : PoolPolicy) (task : Task) :
    task.procedure.Books policy task Anyhow [] := by
  cases task with
  | add link => exact fun result => trivial
  | connect e => exact books_bind (regroups_connect e).books fun _ _ _ => books_pure _
  | remove id => exact books_bind (regroups_takePeer id true true).books fun _ _ _ => books_pure _
  | removeEndpoint e => exact books_bind (regroups_removeEndpoint e).books fun _ _ _ => books_pure _
  | removeDuplicates =>
      exact books_bind regroups_removeDuplicates.books fun _ _ _ => books_pure _
  | handle event => exact books_bind (books_handle event) fun _ _ _ => books_pure _
  | maintain => exact books_bind books_maintain fun _ _ _ => books_pure _
  | receive endpoints => exact books_bind (books_receivePeers endpoints) fun _ _ _ => books_pure _
  | bootstrap => exact books_bind (books_bootstrap (Or.inl rfl)) fun _ _ _ => books_pure _
  | shutdown => exact books_bind regroups_shutdown.books fun _ _ _ => books_pure _

end Overlay
