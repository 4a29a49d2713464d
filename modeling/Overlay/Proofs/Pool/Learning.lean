import Mathlib.Data.List.Nodup
import Overlay.Proofs.Pool.TrackedTasks
import Overlay.Proofs.Pool.ReceivedPeers

/-!
# The address book over whole runs

Whatever tasks of a pool are under way, its book stays what it should be (`Pool.Booked`).  It is in
order of learning: of any two moments, what was kept of the book of the first stands in front of
what was learned since.  And nothing leaves it but on the grounds that a task has for it
(`TrackedTasks.book_of_run`).
-/

namespace Overlay

/-- What a pool knows of nodes that are no members is as its policy wants it. -/
structure Pool.Booked (policy : PoolPolicy) (pool : Pool) : Prop where
  policy_eq : pool.policy = policy
  capacity_eq : pool.book.capacity = policy.bookCapacity
  nodup : pool.book.entries.Nodup
  length_le : pool.book.entries.length ≤ policy.bookCapacity
  other : ∀ e ∈ pool.book.entries, policy.selfEndpoint ≠ some e
  configured : ∀ e, pool.bootNode = some e → e ∈ policy.bootnodes
  none_iff : pool.bootNode = none ↔ policy.bootnodes = []

namespace Pool.Booked

variable {policy : PoolPolicy} {pool after : Pool}

theorem empty (policy : PoolPolicy) (localKey : Bytes) (store : Option PeerStore) :
    (Pool.empty policy localKey store).Booked policy where
  policy_eq := rfl
  capacity_eq := rfl
  nodup := List.nodup_nil
  length_le := Nat.zero_le _
  other := nofun
  configured := fun _ hpreferred => List.mem_of_head? hpreferred
  none_iff := List.head?_eq_none_iff

theorem same (hbooked : pool.Booked policy) (hsame : pool.SameBook after) :
    after.Booked policy := by
  obtain ⟨hpolicy, hbook, hbootNode⟩ := hsame
  constructor
  · exact hpolicy.trans hbooked.policy_eq
  · exact hbook ▸ hbooked.capacity_eq
  · exact hbook ▸ hbooked.nodup
  · exact hbook ▸ hbooked.length_le
  · exact hbook ▸ hbooked.other
  · exact hbootNode ▸ hbooked.configured
  · exact hbootNode ▸ hbooked.none_iff

theorem learn (hbooked : pool.Booked policy) {e : Endpoint} (hother : policy.selfEndpoint ≠ some e)
    (hnew : e ∉ pool.book.entries) (hroom : pool.book.entries.length < pool.book.capacity) :
    Booked policy { pool with book := pool.book.learn e } := by
  rw [AddressBook.learn_of_room hnew hroom]
  have hfits := hbooked.capacity_eq ▸ hroom
  exact { hbooked with
    nodup := List.concat_eq_append ▸ hbooked.nodup.concat hnew
    length_le := by
      rw [List.length_append]
      exact hfits
    other := by simpa [or_imp, forall_and] using ⟨hbooked.other, hother⟩ }

theorem forget (hbooked : pool.Booked policy) (e : Endpoint) : (pool.forget e).Booked policy :=
  { hbooked with
    nodup := hbooked.nodup.filter _
    length_le := Nat.le_trans (List.length_filter_le _ _) hbooked.length_le
    other := fun other hother => hbooked.other other (List.mem_of_mem_filter hother) }

theorem prefer (hbooked : pool.Booked policy) {e : Endpoint} (hconfigured : e ∈ policy.bootnodes) :
    Booked policy { pool with bootNode := some e } :=
  { hbooked with
    configured := fun _ hpreferred => Option.some.inj hpreferred ▸ hconfigured
    none_iff := ⟨nofun, fun hnone => absurd hconfigured (hnone ▸ List.not_mem_nil)⟩ }

end Pool.Booked

/-- What a section writes down leaves the book as it was, or with one more endpoint behind the
others, or without one. -/
theorem Booking.cases {policy : PoolPolicy} {task : Task} {findings : List Finding}
    {pool after : Pool} (hbooking : Booking policy task findings pool after)
    (hbooked : pool.Booked policy) : after.Booked policy ∧
      (after.book.entries = pool.book.entries ∨
        (∃ endpoints e, task = .receive endpoints ∧ e ∈ endpoints ∧ e ∉ pool.book.entries ∧
          after.book.entries = pool.book.entries ++ [e]) ∨
        ∃ e, Grounds policy.bootnodes task findings e ∧
          after.book.entries = pool.book.entries.filter (· ≠ e)) := by
  cases hbooking with
  | nothing hsame => exact ⟨hbooked.same hsame, Or.inl (congrArg (·.entries) hsame.book)⟩
  | @learned endpoints e htask hheard hother =>
      by_cases hkept : e ∈ pool.book.entries ∨ pool.book.capacity ≤ pool.book.entries.length
      · rw [AddressBook.learn_of_known_or_full hkept]
        exact ⟨hbooked.same ⟨rfl, rfl, rfl⟩, Or.inl rfl⟩
      · obtain ⟨hnew, hroom⟩ := not_or.1 hkept
        have hlearned := AddressBook.learn_of_room hnew (Nat.not_le.1 hroom)
        exact ⟨hbooked.learn hother hnew (Nat.not_le.1 hroom),
          Or.inr (Or.inl ⟨endpoints, e, htask, hheard, hnew, congrArg (·.entries) hlearned⟩)⟩
  | @forgotten e hgrounds => exact ⟨hbooked.forget e, Or.inr (Or.inr ⟨e, hgrounds, rfl⟩)⟩
  | preferred hconfigured => exact ⟨hbooked.prefer hconfigured, Or.inl rfl⟩

theorem TrackedTask.Step.books {policy : PoolPolicy} {world after : World}
    {tracked next : TrackedTask} (hstep : tracked.Step world after next)
    (hpolicy : world.pool.policy = policy)
    (hbooks : tracked.rest.Books policy tracked.task Procedure.Anyhow tracked.findings) :
    Booking policy tracked.task tracked.findings world.pool after.pool ∧
      next.rest.Books policy next.task Procedure.Anyhow next.findings := by
  cases hstep with
  | act f rest => exact hbooks world hpolicy
  | dial e rest outcome => exact ⟨.nothing world.pool.sameBook_refl, hbooks outcome⟩
  | offer link rest => exact ⟨.nothing (world.sameBook_addPeer link), hbooks _⟩
  | refused link rest cause => exact ⟨.nothing world.pool.sameBook_refl, hbooks _⟩

namespace TrackedTasks

/-- An endpoint that a list of peers held is learned in a step, behind all others. -/
structure Learns (s t : TrackedTasks) (e : Endpoint) : Prop where
  heard : ∃ tracked ∈ s.under, ∃ endpoints, tracked.task = .receive endpoints ∧ e ∈ endpoints
  new : e ∉ s.entries
  entries_eq : t.entries = s.entries ++ [e]

/-- An endpoint is forgotten in a step, as a task has grounds for. -/
structure Forgets (bootnodes : List Endpoint) (s t : TrackedTasks) (e : Endpoint) : Prop where
  grounds : ∃ tracked ∈ s.under, Grounds bootnodes tracked.task tracked.findings e
  entries_eq : t.entries = s.entries.filter (· ≠ e)

/-- Something happens in a step on the way from one state to another. -/
def Between (s t : TrackedTasks) (Happens : TrackedTasks → TrackedTasks → Prop) : Prop :=
  ∃ u v, s.Run u ∧ u.Step v ∧ v.Run t ∧ Happens u v

/-- The pool is as it should be, and so is what its tasks have left to do. -/
structure Sound (policy : PoolPolicy) (s : TrackedTasks) : Prop where
  booked : s.world.pool.Booked policy
  books : ∀ tracked ∈ s.under,
    tracked.rest.Books policy tracked.task Procedure.Anyhow tracked.findings

variable {policy : PoolPolicy} {localKey : Bytes} {store : Option PeerStore} {net : Net}
  {s t u : TrackedTasks} {Happens : TrackedTasks → TrackedTasks → Prop}

theorem sound_start : (start policy localKey store net).Sound policy where
  booked := .empty policy localKey store
  books := nofun

/-- What one step makes of the book. -/
theorem Sound.step (hsound : s.Sound policy) (hstep : s.Step t) : t.Sound policy ∧
    (t.entries = s.entries ∨ (∃ e, s.Learns t e) ∨ ∃ e, Forgets policy.bootnodes s t e) := by
  cases hstep with
  | ask task =>
      refine ⟨⟨hsound.booked, fun tracked htracked => ?_⟩, Or.inl rfl⟩
      rcases List.mem_cons.1 htracked with rfl | hold
      · exact task.books policy
      · exact hsound.books tracked hold
  | @turn before behind tracked next after hunder hstep =>
      have hmem : tracked ∈ s.under := hunder ▸ List.mem_append_right _ List.mem_cons_self
      obtain ⟨hbooking, hnext⟩ :=
        hstep.books hsound.booked.policy_eq (hsound.books tracked hmem)
      obtain ⟨hbooked, hentries⟩ := hbooking.cases hsound.booked
      refine ⟨⟨hbooked, fun other hother => ?_⟩, ?_⟩
      · simp only [List.mem_append, List.mem_cons] at hother
        rcases hother with hbefore | rfl | hbehind
        · exact hsound.books other (hunder ▸ List.mem_append_left _ hbefore)
        · exact hnext
        · exact hsound.books other
            (hunder ▸ List.mem_append_right _ (List.mem_cons_of_mem _ hbehind))
      · rcases hentries with hkept | ⟨endpoints, e, htask, hheard, hnew, hlearned⟩ |
          ⟨e, hgrounds, hforgotten⟩
        · exact Or.inl hkept
        · exact Or.inr (Or.inl ⟨e, ⟨tracked, hmem, endpoints, htask, hheard⟩, hnew, hlearned⟩)
        · exact Or.inr (Or.inr ⟨e, ⟨tracked, hmem, hgrounds⟩, hforgotten⟩)
  | @finish before behind tracked hunder =>
      refine ⟨⟨hsound.booked, fun other hother => hsound.books other ?_⟩, Or.inl rfl⟩
      rw [hunder]
      rcases List.mem_append.1 hother with hbefore | hbehind
      · exact List.mem_append_left _ hbefore
      · exact List.mem_append_right _ (List.mem_cons_of_mem _ hbehind)
  | meanwhile after hsame =>
      exact ⟨⟨hsound.booked.same hsame, hsound.books⟩, Or.inl (congrArg (·.entries) hsame.book)⟩

theorem Sound.run (hsound : s.Sound policy) (hrun : s.Run t) : t.Sound policy := by
  induction hrun with
  | refl => exact hsound
  | tail _ hstep ih => exact (ih.step hstep).1

theorem Between.tail (hbetween : s.Between t Happens) (hstep : t.Step u) :
    s.Between u Happens := by
  obtain ⟨first, second, hrun, hfirst, hsecond, hhappens⟩ := hbetween
  exact ⟨first, second, hrun, hfirst, hsecond.tail hstep, hhappens⟩

theorem Between.last (hrun : s.Run t) (hstep : t.Step u) (hhappens : Happens t u) :
    s.Between u Happens :=
  ⟨t, u, hrun, hstep, .refl, hhappens⟩

/-- What a concurrent pool knows of other nodes is as its policy wants it. -/
theorem booked_of_concurrentPool {c : ConcurrentPool}
    (hrun : (ConcurrentPool.start policy localKey store net).Run c) :
    c.world.pool.Booked policy := by
  obtain ⟨s, hrun, hworld, -⟩ := exists_run_of_concurrentPool hrun
  exact hworld ▸ (sound_start.run hrun).booked

/-- What a book has become since: what was kept of it, in its order, and behind that what was
learned since. -/
structure Since (bootnodes : List Endpoint) (s t : TrackedTasks) (kept later : List Endpoint) :
    Prop where
  entries_eq : t.entries = kept ++ later
  sublist : kept.Sublist s.entries
  learned : ∀ e ∈ later, s.Between t (Learns · · e)
  forgotten : ∀ e ∈ s.entries, e ∉ kept → s.Between t (Forgets bootnodes · · e)

/-- One more step learns an endpoint, forgets one wherever it stands, or does neither. -/
theorem Since.step {kept later : List Endpoint} (hsince : Since policy.bootnodes s t kept later)
    (hrun : s.Run t) (hsound : t.Sound policy) (hstep : t.Step u) :
    ∃ kept later, Since policy.bootnodes s u kept later := by
  have hlearned := fun e he => (hsince.learned e he).tail hstep
  have hforgotten := fun e he hgone => (hsince.forgotten e he hgone).tail hstep
  rcases (hsound.step hstep).2 with hsame | ⟨e, hlearns⟩ | ⟨e, hforgets⟩
  · exact ⟨kept, later, hsame.trans hsince.entries_eq, hsince.sublist, hlearned, hforgotten⟩
  · refine ⟨kept, later ++ [e], ?_, hsince.sublist, fun other hother => ?_, hforgotten⟩
    · rw [hlearns.entries_eq, hsince.entries_eq, List.append_assoc]
    · rcases List.mem_append.1 hother with hold | hnew
      · exact hlearned other hold
      · rw [List.mem_singleton.1 hnew]
        exact .last hrun hstep hlearns
  · refine ⟨kept.filter (· ≠ e), later.filter (· ≠ e), ?_, ?_, fun other hother => ?_,
      fun other hother hgone => ?_⟩
    · rw [hforgets.entries_eq, hsince.entries_eq, List.filter_append]
    · exact List.filter_sublist.trans hsince.sublist
    · exact hlearned other (List.mem_of_mem_filter hother)
    · by_cases hkept : other ∈ kept
      · obtain rfl : other = e := by
          by_contra hne
          exact hgone (List.mem_filter.2 ⟨hkept, decide_eq_true hne⟩)
        exact .last hrun hstep hforgets
      · exact hforgotten other hother hkept

theorem Sound.since (hsound : s.Sound policy) (hrun : s.Run t) :
    ∃ kept later, Since policy.bootnodes s t kept later := by
  induction hrun with
  | refl =>
      exact ⟨s.entries, [], (List.append_nil _).symm, List.Sublist.refl _, nofun,
        fun e he hgone => absurd he hgone⟩
  | tail hrun hstep ih =>
      obtain ⟨kept, later, hsince⟩ := ih
      exact hsince.step hrun (hsound.run hrun) hstep

/-- **The address book and the boot node over whole runs.**  Whatever is asked of a pool that has
started without peers, and however its tasks come between one another: its book holds no endpoint
twice, no more than fit, and never the own one.  To add one fails exactly if it is there or there is
no room, and then learning it changes nothing.  The boot node is a configured one, or none exactly
if none is configured.  And from any moment to a later one, the book keeps its order and what is
learned goes behind it; what was learned had been heard of, and what has left it was forgotten
because a bootstrap had just dialed it in vain and it is not configured, or because the member there
was reported unreachable. -/
theorem book_of_run (hrun : (start policy localKey store net).Run s) :
    s.entries.Nodup ∧ s.entries.length ≤ policy.bookCapacity ∧
      (∀ e ∈ s.entries, policy.selfEndpoint ≠ some e) ∧
      (∀ e, ((∃ cause, s.world.pool.book.add e = .error cause) ↔
          e ∈ s.entries ∨ policy.bookCapacity ≤ s.entries.length) ∧
        ∀ cause, s.world.pool.book.add e = .error cause →
          s.world.pool.book.learn e = s.world.pool.book) ∧
      (∀ e, s.world.pool.bootNode = some e → e ∈ policy.bootnodes) ∧
      (s.world.pool.bootNode = none ↔ policy.bootnodes = []) ∧
      ∀ t, s.Run t → ∃ kept later : List Endpoint,
        t.entries = kept ++ later ∧ kept.Sublist s.entries ∧
        (∀ e ∈ later, s.Between t (Learns · · e)) ∧
        ∀ e ∈ s.entries, e ∉ kept → s.Between t (Forgets policy.bootnodes · · e) := by
  have hsound := sound_start.run hrun
  have hbooked := hsound.booked
  refine ⟨hbooked.nodup, hbooked.length_le, hbooked.other, fun e => ⟨?_, ?_⟩, hbooked.configured,
    hbooked.none_iff, fun t hlater => ?_⟩
  · rw [AddressBook.exists_add_error_iff, hbooked.capacity_eq]
    rfl
  · exact fun _ => AddressBook.learn_of_error
  · obtain ⟨kept, later, hsince⟩ := hsound.since hlater
    exact ⟨kept, later, hsince.entries_eq, hsince.sublist, hsince.learned, hsince.forgotten⟩

/-- A pool whose book has room for two endpoints. -/
def overheard : PoolPolicy where
  selfEndpoint := some ⟨"h", 0⟩
  bootnodes := [⟨"h", 1⟩]
  bookCapacity := 2

/-- Two endpoints are learned besides the own one, and no third one.  A bootstrap keeps the boot
node and the endpoint of a member, and forgets the other one. -/
theorem book_of_run_overheard : ∃ s t, (start overheard [0] none {}).Run s ∧ s.Run t ∧
    s.entries = [⟨"h", 8⟩, ⟨"h", 6⟩] ∧ t.entries = [⟨"h", 6⟩] ∧
    s.entries.Nodup ∧ s.entries.length ≤ 2 ∧ s.world.pool.bootNode = some ⟨"h", 1⟩ ∧
    s.Between t (Forgets overheard.bootnodes · · ⟨"h", 8⟩) := by
  have hdial : ∀ (e : Endpoint) (world : World),
      world.pool.SameBook (rumours.dial e world).2.pool := fun _ _ => ⟨rfl, rfl, rfl⟩
  have hheard := run_script hdial
    [.receive ([8, 0, 6].map (⟨"h", ·⟩)), .receive ([7, 8].map (⟨"h", ·⟩))]
    (start overheard [0] none {}).world
  obtain ⟨hnodup, hfits, -, -, -, -, hlater⟩ := book_of_run hheard
  obtain ⟨kept, later, hentries, -, -, hforgotten⟩ := hlater _ (run_alone hdial .bootstrap _)
  refine ⟨_, _, hheard, run_alone hdial .bootstrap _, rfl, rfl, hnodup, hfits, rfl, ?_⟩
  refine hforgotten _ (by decide) fun hkept => ?_
  have hstill := hentries.symm ▸ List.mem_append_left later hkept
  exact absurd hstill (by decide)

end TrackedTasks

end Overlay
