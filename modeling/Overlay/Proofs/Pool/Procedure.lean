import Mathlib.Tactic.SplitIfs
import Overlay.Proofs.Pool.Membership

/-!
# Calls on a pool, section by section

A call on a pool goes through sections, each under one lock, and dials between
them; other calls come in between.  `Procedure` says which sections a call goes
through.  Run with nothing in between, each call does what the function of the
world does that has its name (`Task.run_procedure`).
-/

namespace Overlay

open Wire

/-- What a call still has to do, and its result. -/
inductive Procedure (α : Type) where
  | done (result : α)
  -- it changes what is shared, and goes on with what it found there
  | act (f : World → World) (next : World → Procedure α)
  -- it offers a link to the pool
  | offer (link : Link) (next : Except NetError Admission → Procedure α)
  -- it dials
  | dial (e : Endpoint) (next : Except NetError Link → Procedure α)

namespace Procedure

variable {α β : Type}

def bind : Procedure α → (α → Procedure β) → Procedure β
  | .done result, rest => rest result
  | .act f next, rest => .act f fun world => (next world).bind rest
  | .offer link next, rest => .offer link fun result => (next result).bind rest
  | .dial e next, rest => .dial e fun result => (next result).bind rest

instance : Monad Procedure where
  pure := .done
  bind := bind

/-! ## Single sections -/

def look : Procedure World :=
  .act id .done

def alter (f : Pool → Pool) : Procedure Unit :=
  .act (·.withPool f) fun _ => .done ()

def onNet (f : Net → Net) : Procedure Unit :=
  .act (·.withNet f) fun _ => .done ()

def reach (e : Endpoint) : Procedure (Except NetError Link) :=
  .dial e .done

/-- Claims what nobody else may do meanwhile: whether nobody did. -/
def claim (claimed : Pool → Bool) (f : Pool → Pool) : Procedure Bool :=
  .act (·.withPool f) fun world => .done !claimed world.pool

def claimUpkeep : Procedure Bool :=
  claim (·.maintaining) ({ · with maintaining := true })

def releaseUpkeep : Procedure Unit :=
  alter ({ · with maintaining := false })

def claimExchange : Procedure Bool :=
  claim (·.receiving) ({ · with receiving := true })

def releaseExchange : Procedure Unit :=
  alter ({ · with receiving := false })

/-- Takes a member out of the list. -/
def take (id : Nat) : Procedure (Option Peer) :=
  .act (·.withPool fun pool => { pool with members := pool.members.eraseP (·.id == id) })
    fun world => .done (world.pool.member? id)

/-- Says goodbye to one that was taken out, if it can be reached. -/
def farewell (goodbye : Bool) (peer : Peer) : Procedure Peer :=
  if goodbye && peer.isAvailable then
    .act (fun world => { world with net := (peer.sayGoodbye world.net).2 })
      fun world => .done (peer.sayGoodbye world.net).1
  else .done peer

/-- Ends one that was taken out, forgets it if that is wanted, and says that it left. -/
def dismiss (peer : Peer) (forget : Bool) : Procedure Unit := do
  onNet fun net => (peer.disconnect net).2.2
  alter fun pool =>
    if forget then { pool with store := pool.store.map (·.remove peer.endpoint) } else pool
  alter (·.tell (.left peer.id peer.endpoint))

/-- Queues a message on a member. -/
def post (id : Nat) (message : Message) : Procedure Unit :=
  alter fun pool =>
    match pool.member? id with
    | none => pool
    | some peer =>
      match pool.send peer { message } with
      | .error _ => pool
      | .ok pool => pool

/-- Queues a message on every member and lets it be written. -/
def broadcast (message : Message) : Procedure Unit :=
  .act (fun world => (world.broadcastAndWait message).2) fun _ => .done ()

/-! ## Calls -/

def connect (e : Endpoint) : Procedure (Except NetError Admission) := do
  match (← look).pool.atEndpoint? e with
  | some peer => return .ok (.alreadyConnected peer.id)
  | none =>
    match ← reach e with
    | .error cause => return .error cause
    | .ok link => .offer link .done

def takePeer (id : Nat) (goodbye forget : Bool) : Procedure Bool := do
  match ← take id with
  | none => return false
  | some peer =>
    let peer ← farewell goodbye peer
    dismiss peer forget
    return true

def removePeer (id : Nat) : Procedure Bool :=
  takePeer id true true

def removeEndpoint (e : Endpoint) : Procedure Bool := do
  match (← look).pool.atEndpoint? e with
  | none => return false
  | some peer => removePeer peer.id

def removeAll : List Nat → Procedure (List Nat)
  | [] => return []
  | id :: rest => do
    let removed ← removePeer id
    let ids ← removeAll rest
    return if removed then id :: ids else ids

def removeDuplicates : Procedure Nat := do
  let removed ← removeAll (← look).pool.duplicates
  return removed.length

def bootstrapFrom : List Endpoint → Procedure (Option Endpoint)
  | [] => return none
  | e :: rest => do
    match ← connect e with
    | .ok _ =>
      alter fun pool => if e ∈ pool.policy.bootnodes then { pool with bootNode := some e } else pool
      return some e
    | .error _ =>
      alter fun pool => if e ∈ pool.policy.bootnodes then pool else pool.forget e
      bootstrapFrom rest

def bootstrap : Procedure (Option Endpoint) := do
  let bootNode := (← look).pool.bootNode
  bootstrapFrom { (← look).pool with bootNode }.candidates

def releaseBootNode : Procedure Bool := do
  match (← look).pool.bootNode with
  | none => return false
  | some e => removeEndpoint e

def anchor (report : UpkeepReport) : Procedure UpkeepReport := do
  if (← look).pool.members = [] then
    let bootstrapped ← bootstrap
    return { report with bootstrapped }
  else
    let pool := (← look).pool
    if pool.policy.target / 2 < pool.members.length then
      let releasedBootNode ← releaseBootNode
      return { report with releasedBootNode }
    else return report

/-- The second part of an upkeep, and whether the upkeep counts as ended. -/
def balance (report : UpkeepReport) : Procedure (UpkeepReport × Bool) := do
  let pool := (← look).pool
  let count := pool.members.length
  let target := pool.policy.target
  if count < target then
    releaseUpkeep
    broadcast (PeerRequest.ofCount (target - count)).toMessage
    return ({ report with requested := target - count }, true)
  else
    let oldest := ((← look).pool.members.take (count - target)).map (·.id)
    let removed ← removeAll oldest
    return ({ report with removed }, false)

def maintain : Procedure (Option UpkeepReport) := do
  if (← look).pool.receiving then return none
  else if ← claimUpkeep then
    let report ← anchor {}
    let (report, ended) ← balance report
    let duplicates ← removeDuplicates
    if ended then return some { report with duplicates }
    else
      releaseUpkeep
      return some { report with duplicates }
  else return none

def joinAll : List Endpoint → Procedure Nat
  | [] => return 0
  | e :: rest => do
    let pool := (← look).pool
    if pool.isSelf e || (pool.atEndpoint? e).isSome then joinAll rest
    else
      alter fun pool => { pool with book := pool.book.learn e }
      let result ← connect e
      let count ← joinAll rest
      match result with
      | .ok (.added _) => return count + 1
      | _ => return count

def receivePeers (endpoints : List Endpoint) : Procedure Nat := do
  if (← look).pool.maintaining then return 0
  else if ← claimExchange then
    let count ← joinAll endpoints
    releaseExchange
    return count
  else return 0

def leaveAll : List Nat → Procedure Unit
  | [] => return ()
  | id :: rest => do
    let _ ← takePeer id true false
    leaveAll rest

def shutdown : Procedure Unit := do
  leaveAll ((← look).pool.members.map (·.id))

def answerRequest (id : Nat) (message : Message) : Procedure Unit := do
  match PeerRequest.ofMessage message with
  | .error _ => return ()
  | .ok request =>
    let reply : PeerList := ⟨(← look).pool.available request.count.toNat (some id)⟩
    post id reply.toMessage

def acceptList (message : Message) : Procedure Unit := do
  match PeerList.ofMessage message with
  | .error _ => return ()
  | .ok list =>
    if (← look).pool.maintaining then return ()
    else alter fun pool => { pool with exchanges := pool.exchanges ++ [list.peers] }

def handleMessage (id : Nat) (message : Message) : Procedure Unit := do
  match (← look).pool.member? id with
  | none => return ()
  | some peer =>
    match MessageKind.ofTag? message.tag with
    | some .requestPeers => answerRequest id message
    | some .returnPeers => acceptList message
    | some .disconnect =>
      let _ ← takePeer id false true
      return ()
    | some .handshake => return ()
    | _ => alter (·.tell (.message id peer.endpoint message))

def handle : PeerEvent → Procedure Unit
  | .message id message => handleMessage id message
  | .reconnected _ => return ()
  | .unreachable id _ => do
    match (← look).pool.member? id with
    | none => pure ()
    | some peer => alter (·.forget peer.endpoint)
    let _ ← takePeer id false true
    return ()

end Procedure

/-! ## Calls with nothing in between -/

namespace World

variable {world : World}

/-- To claim what is claimed changes nothing. -/
theorem withPool_receiving (hreceiving : world.pool.receiving = true) :
    world.withPool ({ · with receiving := true }) = world := by
  obtain ⟨pool, net⟩ := world
  cases pool
  cases hreceiving
  rfl

/-- Nor does it to claim an upkeep that is claimed, or to release one that is not. -/
theorem withPool_maintaining {claimed : Bool} (hmaintaining : world.pool.maintaining = claimed) :
    world.withPool ({ · with maintaining := claimed }) = world := by
  obtain ⟨pool, net⟩ := world
  cases pool
  cases hmaintaining
  rfl

theorem maintaining_takePeer (id : Nat) (goodbye forget : Bool) :
    (world.takePeer id goodbye forget).2.pool.maintaining = world.pool.maintaining := by
  rw [takePeer]
  cases world.pool.member? id <;> rfl

theorem maintaining_removeAll (ids : List Nat) :
    (world.removeAll ids).2.pool.maintaining = world.pool.maintaining := by
  induction ids generalizing world with
  | nil => rfl
  | cons id rest ih =>
      rw [removeAll]
      exact ih.trans (maintaining_takePeer id true true)

theorem maintaining_broadcastAndWait (message : Message) :
    (world.broadcastAndWait message).2.pool.maintaining = world.pool.maintaining := by
  obtain ⟨members, tickets, verdicts, hpool⟩ := world.exists_broadcastAndWait message
  rw [hpool]

/-- An upkeep that asks for more peers is over, and one that lets some go is not. -/
theorem maintaining_balance (report : UpkeepReport) :
    (world.balance report).2.pool.maintaining =
      (world.pool.maintaining && !(world.pool.members.length < world.pool.policy.target)) := by
  rw [balance]
  by_cases hfew : world.pool.members.length < world.pool.policy.target
  · simp [hfew, maintaining_broadcastAndWait, withPool]
  · simp [hfew, maintaining_removeAll]

end World

namespace Procedure

def run (dial : Dial) : Procedure α → World → α × World
  | .done result, world => (result, world)
  | .act f next, world => (next world).run dial (f world)
  | .offer link next, world =>
    let (result, world) := world.addPeer link
    (next result).run dial world
  | .dial e next, world =>
    let (result, world) := dial e world
    (next result).run dial world

variable {dial : Dial} {world : World}

@[simp] theorem run_pure (result : α) : run dial (pure result) world = (result, world) :=
  rfl

@[simp] theorem run_bind (procedure : Procedure α) (next : α → Procedure β) :
    run dial (procedure >>= next) world =
      run dial (next (run dial procedure world).1) (run dial procedure world).2 := by
  show run dial (procedure.bind next) world = _
  induction procedure generalizing world with
  | done result => rfl
  | act f rest ih => exact ih world
  | offer link rest ih => exact ih (world.addPeer link).1
  | dial e rest ih => exact ih (dial e world).1

@[simp] theorem run_look : run dial look world = (world, world) :=
  rfl

@[simp] theorem run_alter (f : Pool → Pool) : run dial (alter f) world = ((), world.withPool f) :=
  rfl

@[simp] theorem run_claim (claimed : Pool → Bool) (f : Pool → Pool) :
    run dial (claim claimed f) world = (!claimed world.pool, world.withPool f) :=
  rfl

@[simp] theorem run_reach (e : Endpoint) : run dial (reach e) world = dial e world :=
  rfl

theorem run_connect (e : Endpoint) : run dial (connect e) world = world.connect dial e := by
  rw [connect, World.connect, run_bind, run_look]
  cases world.pool.atEndpoint? e with
  | some peer => rfl
  | none =>
      simp only [run_bind, run_reach]
      rcases dial e world with ⟨result, after⟩
      cases result <;> rfl

@[simp] theorem run_take (id : Nat) :
    run dial (take id) world = (world.pool.member? id,
      world.withPool fun pool => { pool with members := pool.members.eraseP (·.id == id) }) :=
  rfl

theorem run_farewell (goodbye : Bool) (peer : Peer) :
    run dial (farewell goodbye peer) world =
      if goodbye && peer.isAvailable then
        ((peer.sayGoodbye world.net).1, { world with net := (peer.sayGoodbye world.net).2 })
      else (peer, world) := by
  rw [farewell]
  split <;> rfl

/-- Whoever was taken out of the list is then gone from the pool. -/
theorem run_dismiss {pool : Pool} {net : Net} (peer : Peer) (forget : Bool) :
    run dial (dismiss peer forget)
        { pool := { pool with members := pool.members.eraseP (·.id == peer.id) }, net } =
      ((), { pool := pool.expel peer forget, net := (peer.disconnect net).2.2 }) := by
  cases forget <;> rfl

/-- A member that was taken out is ended, and the pool is one member short. -/
theorem run_dismiss_taken (peer : Peer) (forget : Bool) {id : Nat} (hid : peer.id = id) (net : Net) :
    run dial (dismiss peer forget)
        { pool := { world.pool with members := world.pool.members.eraseP (·.id == id) }, net } =
      ((), { pool := world.pool.expel peer forget, net := (peer.disconnect net).2.2 }) := by
  subst hid
  exact run_dismiss peer forget

theorem run_takePeer (id : Nat) (goodbye forget : Bool) :
    run dial (takePeer id goodbye forget) world = world.takePeer id goodbye forget := by
  rw [takePeer, World.takePeer, run_bind, run_take]
  cases hmember : world.pool.member? id with
  | none =>
      have hnobody : ∀ peer ∈ world.pool.members, ¬ (peer.id == id) = true :=
        List.find?_eq_none.1 hmember
      simp [World.withPool, List.eraseP_of_forall_not hnobody]
  | some peer =>
      have hid : peer.id = id := Pool.id_of_member? hmember
      have hsaid : (peer.sayGoodbye world.net).1.id = id :=
        (congrArg (·.id) (peer.gist_sayGoodbye world.net)).trans hid
      simp only [run_bind, run_farewell]
      split
      · simp only [World.withPool, run_dismiss_taken _ forget hsaid]
        rfl
      · simp only [World.withPool, run_dismiss_taken _ forget hid]
        rfl

theorem run_removePeer (id : Nat) : run dial (removePeer id) world = world.removePeer id :=
  run_takePeer id true true

theorem run_removeEndpoint (e : Endpoint) :
    run dial (removeEndpoint e) world = world.removeEndpoint e := by
  rw [removeEndpoint, World.removeEndpoint, run_bind, run_look]
  cases world.pool.atEndpoint? e with
  | none => rfl
  | some peer => exact run_removePeer peer.id

theorem run_removeAll (ids : List Nat) :
    run dial (removeAll ids) world = world.removeAll ids := by
  induction ids generalizing world with
  | nil => rfl
  | cons id rest ih =>
      rw [removeAll, World.removeAll]
      simp only [run_bind, run_pure, run_removePeer, ih]

theorem run_removeDuplicates : run dial removeDuplicates world = world.removeDuplicates := by
  rw [removeDuplicates, World.removeDuplicates]
  simp only [run_bind, run_look, run_pure, run_removeAll]

theorem run_bootstrapFrom (endpoints : List Endpoint) :
    run dial (bootstrapFrom endpoints) world = world.bootstrapFrom dial endpoints := by
  induction endpoints generalizing world with
  | nil => rfl
  | cons e rest ih =>
      rw [bootstrapFrom, World.bootstrapFrom, run_bind, run_connect]
      rcases world.connect dial e with ⟨result, after⟩
      cases result with
      | ok admission => rfl
      | error cause => exact ih

theorem run_bootstrap : run dial bootstrap world = world.bootstrap dial := by
  rw [bootstrap, World.bootstrap]
  exact run_bootstrapFrom _

theorem run_releaseBootNode : run dial releaseBootNode world = world.releaseBootNode := by
  rw [releaseBootNode, World.releaseBootNode, run_bind, run_look]
  cases world.pool.bootNode with
  | none => rfl
  | some e => exact run_removeEndpoint e

theorem run_anchor (report : UpkeepReport) :
    run dial (anchor report) world = world.anchor dial report := by
  rw [anchor, World.anchor, run_bind, run_look]
  by_cases hnobody : world.pool.members = []
  · simp only [hnobody, if_true, run_bind, run_pure, run_bootstrap]
  · by_cases hmany : world.pool.policy.target / 2 < world.pool.members.length
    · simp only [hnobody, hmany, if_true, if_false, run_bind, run_look, run_pure,
        run_releaseBootNode]
    · simp only [hnobody, hmany, if_false, run_bind, run_look, run_pure]

/-- To ask for more peers ends the upkeep; to let the oldest go does not. -/
theorem run_balance (report : UpkeepReport) :
    run dial (balance report) world =
      (((world.balance report).1,
        decide (world.pool.members.length < world.pool.policy.target)),
        (world.balance report).2) := by
  rw [balance, World.balance, run_bind, run_look]
  by_cases hfew : world.pool.members.length < world.pool.policy.target
  · simp only [hfew, if_true, decide_true]
    rfl
  · simp only [hfew, if_false, decide_false, run_bind, run_look, run_pure, run_removeAll]

theorem run_joinAll (endpoints : List Endpoint) :
    run dial (joinAll endpoints) world = world.joinAll dial endpoints := by
  induction endpoints generalizing world with
  | nil => rfl
  | cons e rest ih =>
      rw [joinAll, World.joinAll, run_bind, run_look]
      by_cases hknown : (world.pool.isSelf e || (world.pool.atEndpoint? e).isSome) = true
      · simp only [hknown, if_true, ih]
      · simp only [hknown, if_false, run_bind, run_alter, run_connect, ih, Bool.false_eq_true]
        generalize World.connect dial (world.withPool _) e = outcome
        obtain ⟨(cause | (id | id | id)), after⟩ := outcome <;> rfl

theorem run_receivePeers (endpoints : List Endpoint) :
    run dial (receivePeers endpoints) world = world.receivePeers dial endpoints := by
  rw [receivePeers, World.receivePeers, run_bind, run_look]
  cases hmaintaining : world.pool.maintaining with
  | true => simp
  | false =>
      cases hreceiving : world.pool.receiving with
      | true => simp [claimExchange, hreceiving, World.withPool_receiving hreceiving]
      | false => simp [claimExchange, hreceiving, run_joinAll, releaseExchange]

theorem run_maintain : run dial maintain world = world.maintain dial := by
  rw [maintain, World.maintain, run_bind, run_look]
  cases hreceiving : world.pool.receiving with
  | true => simp
  | false =>
      cases hmaintaining : world.pool.maintaining with
      | true => simp [claimUpkeep, hmaintaining, World.withPool_maintaining hmaintaining]
      | false =>
          simp only [hmaintaining, run_bind, claimUpkeep, run_claim, run_anchor, run_balance,
            run_removeDuplicates, Bool.or_self, Bool.false_eq_true, if_false, Bool.not_false, if_true]
          generalize World.anchor dial _ _ = anchored
          split
          · next hfew =>
              have hover : (anchored.2.balance anchored.1).2.removeDuplicates.2.pool.maintaining =
                  false := by
                rw [World.removeDuplicates, World.maintaining_removeAll, World.maintaining_balance]
                simp [hfew]
              rw [World.withPool_maintaining hover]
              rfl
          · rfl

theorem run_answerRequest {peer : Peer} {id : Nat} (hmember : world.pool.member? id = some peer)
    (message : Message) :
    run dial (answerRequest id message) world = ((), world.answerRequest peer message) := by
  have hid : peer.id = id := Pool.id_of_member? hmember
  rw [answerRequest, World.answerRequest, hid]
  cases PeerRequest.ofMessage message with
  | error fault => rfl
  | ok request =>
      simp only [run_bind, run_look, post, run_alter]
      cases hsend : world.pool.send peer
          { message := (PeerList.mk (world.pool.available request.count.toNat (some id))).toMessage } <;>
        simp [World.withPool, hmember, hsend]

theorem run_acceptList (message : Message) :
    run dial (acceptList message) world = ((), world.acceptList message) := by
  rw [acceptList, World.acceptList]
  cases PeerList.ofMessage message with
  | error fault => rfl
  | ok list =>
      rw [run_bind, run_look]
      cases hmaintaining : world.pool.maintaining <;> simp

theorem run_handleMessage (id : Nat) (message : Message) :
    run dial (handleMessage id message) world = ((), world.handleMessage id message) := by
  rw [handleMessage, World.handleMessage, run_bind, run_look]
  cases hmember : world.pool.member? id with
  | none => rfl
  | some peer =>
      rcases MessageKind.ofTag? message.tag with _ | kind
      · rfl
      · cases kind
        case requestPeers => exact run_answerRequest hmember message
        case returnPeers => exact run_acceptList message
        case disconnect => simp only [run_bind, run_pure, run_takePeer]
        all_goals rfl

theorem run_handle (event : PeerEvent) :
    run dial (handle event) world = ((), world.handle event) := by
  cases event with
  | message id message => exact run_handleMessage id message
  | reconnected id => rfl
  | unreachable id cause =>
      rw [handle, World.handle, run_bind, run_look]
      cases hmember : world.pool.member? id with
      | none =>
          simp only [run_bind, run_pure, run_takePeer]
      | some peer =>
          simp only [run_bind, run_pure, run_alter, run_takePeer]

theorem run_leaveAll (ids : List Nat) :
    run dial (leaveAll ids) world =
      ((), ids.foldl (fun world id => (world.takePeer id true false).2) world) := by
  induction ids generalizing world with
  | nil => rfl
  | cons id rest ih =>
      rw [leaveAll, List.foldl_cons, run_bind, run_takePeer]
      exact ih

theorem run_shutdown : run dial shutdown world = ((), world.shutdown) := by
  rw [shutdown, World.shutdown, run_bind, run_look]
  exact run_leaveAll _

end Procedure

/-! ## Tasks -/

/-- What is asked of a pool. -/
inductive Task
  | add (link : Link)
  | connect (e : Endpoint)
  | remove (peer : Nat)
  | removeEndpoint (e : Endpoint)
  | removeDuplicates
  | handle (event : PeerEvent)
  | maintain
  | receive (endpoints : List Endpoint)
  | bootstrap
  | shutdown

/-- What comes back of a task. -/
inductive Report
  | admission (result : Except NetError Admission)
  | removal (removed : Bool)
  | duplicates (count : Nat)
  | handled
  | upkeep (report : Option UpkeepReport)
  | received (count : Nat)
  | bootstrapped (e : Option Endpoint)
  | shut

namespace Task

def procedure : Task → Procedure Report
  | .add link => .offer link fun result => .done (.admission result)
  | .connect e => do return .admission (← Procedure.connect e)
  | .remove id => do return .removal (← Procedure.removePeer id)
  | .removeEndpoint e => do return .removal (← Procedure.removeEndpoint e)
  | .removeDuplicates => do return .duplicates (← Procedure.removeDuplicates)
  | .handle event => do
    Procedure.handle event
    return .handled
  | .maintain => do return .upkeep (← Procedure.maintain)
  | .receive endpoints => do return .received (← Procedure.receivePeers endpoints)
  | .bootstrap => do return .bootstrapped (← Procedure.bootstrap)
  | .shutdown => do
    Procedure.shutdown
    return .shut

/-- What a task does if nothing comes in between. -/
def alone (dial : Dial) (world : World) : Task → Report × World
  | .add link => (world.addPeer link).map .admission id
  | .connect e => (world.connect dial e).map .admission id
  | .remove peer => (world.removePeer peer).map .removal id
  | .removeEndpoint e => (world.removeEndpoint e).map .removal id
  | .removeDuplicates => world.removeDuplicates.map .duplicates id
  | .handle event => (.handled, world.handle event)
  | .maintain => (world.maintain dial).map .upkeep id
  | .receive endpoints => (world.receivePeers dial endpoints).map .received id
  | .bootstrap => (world.bootstrap dial).map .bootstrapped id
  | .shutdown => (.shut, world.shutdown)

/-- The sections of a task, with nothing in between, do what the task does. -/
theorem run_procedure (task : Task) (dial : Dial) (world : World) :
    task.procedure.run dial world = task.alone dial world := by
  cases task with
  | add link => rfl
  | connect e => simp only [procedure, Procedure.run_bind, Procedure.run_connect]; rfl
  | remove id => simp only [procedure, Procedure.run_bind, Procedure.run_removePeer]; rfl
  | removeEndpoint e =>
      simp only [procedure, Procedure.run_bind, Procedure.run_removeEndpoint]
      rfl
  | removeDuplicates =>
      simp only [procedure, Procedure.run_bind, Procedure.run_removeDuplicates]
      rfl
  | handle event => simp only [procedure, Procedure.run_bind, Procedure.run_handle]; rfl
  | maintain => simp only [procedure, Procedure.run_bind, Procedure.run_maintain]; rfl
  | receive endpoints => simp only [procedure, Procedure.run_bind, Procedure.run_receivePeers]; rfl
  | bootstrap => simp only [procedure, Procedure.run_bind, Procedure.run_bootstrap]; rfl
  | shutdown => simp only [procedure, Procedure.run_bind, Procedure.run_shutdown]; rfl

end Task

end Overlay
