import Mathlib.Logic.Relation
import Overlay.Proofs.Pool.Bookkeeping
import Overlay.Proofs.Pool.ConcurrentPool

/-!
# Tasks and what they have found

Any number of tasks of a pool are under way, each between two of its sections, and their sections
come in any order.  What each has found so far is known.  Of what others do meanwhile it is only
said that they leave the address book and the boot node alone.

Tasks that are done one after the other come to pass in this way (`TrackedTasks.run_script`), and so
does all that happens to a concurrent pool (`TrackedTasks.exists_run_of_concurrentPool`).
-/

namespace Overlay

/-- A task under way: what it has found so far, newest first, and what is left of it. -/
structure TrackedTask where
  task : Task
  findings : List Finding := []
  rest : Procedure Report

/-- A task goes through a section, or what it dials or offers comes to an end. -/
inductive TrackedTask.Step (world : World) : TrackedTask → World → TrackedTask → Prop
  | act {task : Task} {findings : List Finding} (f : World → World)
      (next : World → Procedure Report) :
      Step world ⟨task, findings, .act f next⟩ (f world)
        ⟨task, .found world :: findings, next world⟩
  | dial {task : Task} {findings : List Finding} (e : Endpoint)
      (next : Except NetError Link → Procedure Report) (outcome : Except NetError Link) :
      Step world ⟨task, findings, .dial e next⟩ world
        ⟨task, .dialed e outcome :: findings, next outcome⟩
  | offer {task : Task} {findings : List Finding} (link : Link)
      (next : Except NetError Admission → Procedure Report) :
      Step world ⟨task, findings, .offer link next⟩ (world.addPeer link).2
        ⟨task, .offered link (world.addPeer link).1 :: findings, next (world.addPeer link).1⟩
  -- nothing can be started on the link
  | refused {task : Task} {findings : List Finding} (link : Link)
      (next : Except NetError Admission → Procedure Report) (cause : NetError) :
      Step world ⟨task, findings, .offer link next⟩ world
        ⟨task, .offered link (.error cause) :: findings, next (.error cause)⟩

/-- A pool with its tasks under way. -/
structure TrackedTasks where
  world : World
  under : List TrackedTask := []

namespace TrackedTasks

/-- A pool without peers, of which nothing was asked. -/
def start (policy : PoolPolicy) (localKey : Bytes) (store : Option PeerStore) (net : Net) :
    TrackedTasks where
  world := { pool := .empty policy localKey store, net }

def entries (s : TrackedTasks) : List Endpoint :=
  s.world.pool.book.entries

inductive Step : TrackedTasks → TrackedTasks → Prop
  -- something is asked of the pool
  | ask {s : TrackedTasks} (task : Task) :
      Step s { s with under := { task, rest := task.procedure } :: s.under }
  -- a task goes on
  | turn {s : TrackedTasks} {before behind : List TrackedTask} {tracked next : TrackedTask}
      {after : World} (hunder : s.under = before ++ tracked :: behind)
      (hstep : tracked.Step s.world after next) :
      Step s { world := after, under := before ++ next :: behind }
  -- a task ends
  | finish {s : TrackedTasks} {before behind : List TrackedTask} {tracked : TrackedTask}
      (hunder : s.under = before ++ tracked :: behind) :
      Step s { s with under := before ++ behind }
  -- others change what is no address book and no boot node
  | meanwhile {s : TrackedTasks} (after : World) (hsame : s.world.pool.SameBook after.pool) :
      Step s { s with world := after }

/-- What tasks and others lead to. -/
abbrev Run : TrackedTasks → TrackedTasks → Prop :=
  Relation.ReflTransGen Step

variable {policy : PoolPolicy} {localKey : Bytes} {store : Option PeerStore} {net : Net}
  {s : TrackedTasks}

/-! ## Tasks one after the other -/

theorem step_single {world after : World} {tracked next : TrackedTask}
    (hstep : tracked.Step world after next) : Step ⟨world, [tracked]⟩ ⟨after, [next]⟩ :=
  @Step.turn ⟨world, [tracked]⟩ [] [] tracked next after rfl hstep

section Alone

variable {dial : Dial}
  (hdial : ∀ (e : Endpoint) (world : World), world.pool.SameBook (dial e world).2.pool)
include hdial

/-- What is left of a task can be gone through with nothing in between. -/
theorem run_rest (call : Procedure Report) (task : Task) (findings : List Finding) (world : World) :
    ∃ last, Run ⟨world, [⟨task, findings, call⟩]⟩
      ⟨(call.run dial world).2, [⟨task, last, .done (call.run dial world).1⟩]⟩ := by
  induction call generalizing findings world with
  | done result => exact ⟨findings, .refl⟩
  | act f next ih =>
      obtain ⟨last, hrest⟩ := ih world (.found world :: findings) (f world)
      exact ⟨last, .head (step_single (.act f next)) hrest⟩
  | offer link next ih =>
      obtain ⟨last, hrest⟩ := ih _ (.offered link (world.addPeer link).1 :: findings)
        (world.addPeer link).2
      exact ⟨last, .head (step_single (.offer link next)) hrest⟩
  | dial e next ih =>
      -- the dial ends, and then the world is as it has left it
      obtain ⟨last, hrest⟩ := ih _ (.dialed e (dial e world).1 :: findings) (dial e world).2
      have hended : Step ⟨world, [⟨task, findings, .dial e next⟩]⟩
          ⟨world, [⟨task, .dialed e (dial e world).1 :: findings, next (dial e world).1⟩]⟩ :=
        step_single (.dial e next (dial e world).1)
      exact ⟨last, .head hended (.head (.meanwhile _ (hdial e world)) hrest)⟩

/-- A task is asked, gone through and ended. -/
theorem run_alone (task : Task) (world : World) :
    Run { world } { world := (task.alone dial world).2 } := by
  obtain ⟨last, hrest⟩ := run_rest hdial task.procedure task [] world
  rw [task.run_procedure dial world] at hrest
  exact .head (.ask task) (hrest.tail (@Step.finish ⟨_, _⟩ [] [] _ rfl))

/-- And so are any number of tasks, one after the other. -/
theorem run_script (tasks : List Task) (world : World) :
    Run { world } { world := tasks.foldl (fun world task => (task.alone dial world).2) world } := by
  induction tasks generalizing world with
  | nil => exact .refl
  | cons task rest ih => exact (run_alone hdial task world).trans (ih _)

end Alone

/-! ## Concurrent pools -/

/-- The tasks under way have left to do what the calls on a concurrent pool have, in the same
world. -/
structure Accompanies (s : TrackedTasks) (world : World) (calls : List (Procedure Report)) :
    Prop where
  world_eq : s.world = world
  rests : s.under.map (·.rest) = calls

namespace Accompanies

variable {world after : World} {calls before behind : List (Procedure Report)}
  {call rest : Procedure Report}

/-- Others may do what leaves the book alone. -/
theorem meanwhile (hwith : s.Accompanies world calls) (hsame : world.pool.SameBook after.pool) :
    ∃ t, s.Run t ∧ t.Accompanies after calls := by
  obtain ⟨rfl, hrests⟩ := hwith
  exact ⟨_, .single (.meanwhile after hsame), rfl, hrests⟩

/-- A task goes on as its call does. -/
theorem turn (hwith : s.Accompanies world (before ++ call :: behind))
    (hstep : ∀ task findings, ∃ found,
      TrackedTask.Step world ⟨task, findings, call⟩ after ⟨task, found, rest⟩) :
    ∃ t, s.Run t ∧ t.Accompanies after (before ++ rest :: behind) := by
  obtain ⟨rfl, hrests⟩ := hwith
  obtain ⟨first, others, hunder, hfirst, hothers⟩ := List.map_eq_append_iff.1 hrests
  obtain ⟨⟨task, findings, _⟩, last, rfl, rfl, hlast⟩ := List.map_eq_cons_iff.1 hothers
  obtain ⟨found, hnext⟩ := hstep task findings
  refine ⟨_, .single (.turn hunder hnext), rfl, ?_⟩
  rw [List.map_append, List.map_cons, hfirst, hlast]

end Accompanies

/-- Whatever happens to a concurrent pool, tasks and others can have done it. -/
theorem Accompanies.step {c d : ConcurrentPool} (hwith : s.Accompanies c.world c.calls)
    (hstep : c.Step d) : ∃ t, s.Run t ∧ t.Accompanies d.world d.calls := by
  cases hstep with
  | arrive => exact ⟨s, .refl, hwith⟩
  | ask task =>
      exact ⟨_, .single (.ask task), hwith.world_eq, congrArg (task.procedure :: ·) hwith.rests⟩
  | act hcalls =>
      rw [hcalls] at hwith
      exact hwith.turn fun task findings => ⟨_, .act _ _⟩
  | missed hcalls cause =>
      rw [hcalls] at hwith
      exact hwith.turn fun task findings => ⟨_, .dial _ _ (.error cause)⟩
  | answered hcalls link =>
      rw [hcalls] at hwith
      exact hwith.turn fun task findings => ⟨_, .dial _ _ (.ok link)⟩
  | offer hcalls =>
      rw [hcalls] at hwith
      exact hwith.turn fun task findings => ⟨_, .offer _ _⟩
  | unstarted hcalls hadded cause =>
      rw [hcalls] at hwith
      obtain ⟨t, hrefused, hthere⟩ := hwith.turn fun task findings => ⟨_, .refused _ _ cause⟩
      have hsame : c.world.pool.SameBook
          (c.world.withPool fun pool => { pool with nextId := pool.nextId + 1 }).pool :=
        ⟨rfl, rfl, rfl⟩
      obtain ⟨u, hdrawn, hnow⟩ := hthere.meanwhile hsame
      exact ⟨u, hrefused.trans hdrawn, hnow⟩
  | unopened hcalls hresumed cause =>
      rw [hcalls] at hwith
      exact hwith.turn fun task findings => ⟨_, .refused _ _ cause⟩
  | @finish before behind report hcalls =>
      obtain ⟨hworld, hrests⟩ := hwith
      rw [hcalls] at hrests
      obtain ⟨first, others, hunder, hfirst, hothers⟩ := List.map_eq_append_iff.1 hrests
      obtain ⟨tracked, last, rfl, -, hlast⟩ := List.map_eq_cons_iff.1 hothers
      refine ⟨_, .single (.finish hunder), hworld, ?_⟩
      rw [List.map_append, hfirst, hlast]
  | supervise => exact hwith.meanwhile ⟨rfl, rfl, rfl⟩
  | redialed => exact ⟨s, .refl, hwith⟩
  | mistaken => exact ⟨s, .refl, hwith⟩
  | interpose => exact hwith.meanwhile ⟨rfl, rfl, rfl⟩
  | onLines => exact hwith.meanwhile ⟨rfl, rfl, rfl⟩

/-- What a concurrent pool goes through is a run of tasks and others. -/
theorem exists_run_of_concurrentPool {c : ConcurrentPool}
    (hrun : (ConcurrentPool.start policy localKey store net).Run c) :
    ∃ s, (start policy localKey store net).Run s ∧ s.Accompanies c.world c.calls := by
  induction hrun with
  | refl => exact ⟨_, .refl, rfl, rfl⟩
  | step _ hstep ih =>
      obtain ⟨s, hbefore, hwith⟩ := ih
      obtain ⟨t, hafter, hnow⟩ := hwith.step hstep
      exact ⟨t, hbefore.trans hafter, hnow⟩

end TrackedTasks

end Overlay
