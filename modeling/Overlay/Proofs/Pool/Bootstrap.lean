import Overlay.Proofs.Pool.Dialing

/-!
# How a first peer is found

A pool without peers dials the endpoints that it can start from, each once,
until another node answers.  That node joins, and its endpoint is preferred
from then on if it is a configured one.  Endpoints that were dialed in vain
leave the book unless they are configured.
-/

namespace Overlay

/-- Another node than oneself has answered a dial. -/
def IsAnswered (localKey : Bytes) (outcome : Except NetError Link) : Prop :=
  ∃ link, outcome = .ok link ∧ link.identity.publicKey ≠ localKey

/-- Endpoints are dialed one after the other, and no other node answers any of the dials. -/
def Outcomes.InVain (outcomes : Outcomes) (localKey : Bytes) :
    List Endpoint → List Endpoint → Prop
  | _, [] => True
  | history, e :: rest =>
    ¬ IsAnswered localKey (outcomes history e) ∧ outcomes.InVain localKey (history ++ [e]) rest

namespace Pool

/-- The endpoints that a pool starts from: the preferred one, then the configured ones and then
those of the book, each where it comes first, and never the own one. -/
def sources (pool : Pool) : List Endpoint :=
  fresh id pool.policy.selfEndpoint.toList
    (pool.bootNode.toList ++ pool.policy.bootnodes ++ pool.book.entries)

/-- Takes endpoints out of the book, unless they are configured. -/
def forsake (pool : Pool) (failed : List Endpoint) : Pool :=
  { pool with
    book := { pool.book with
      entries := pool.book.entries.filter fun e => e ∉ failed ∨ e ∈ pool.policy.bootnodes } }

variable {pool : Pool}

@[simp] theorem forsake_nil (pool : Pool) : pool.forsake [] = pool := by
  simp [forsake]

theorem forsake_append (pool : Pool) (failed more : List Endpoint) :
    (pool.forsake failed).forsake more = pool.forsake (failed ++ more) := by
  simp only [forsake, List.filter_filter]
  congr 2
  apply List.filter_congr
  intro e _
  by_cases hconfigured : e ∈ pool.policy.bootnodes
  · simp [hconfigured]
  · simp [hconfigured, Bool.and_comm]

/-- One that did not answer leaves the book unless it is configured. -/
theorem forsake_singleton (pool : Pool) (e : Endpoint) :
    (if e ∈ pool.policy.bootnodes then pool else pool.forget e) = pool.forsake [e] := by
  split_ifs with hconfigured
  · have hkept : ∀ other ∈ pool.book.entries,
        decide (other ∉ [e] ∨ other ∈ pool.policy.bootnodes) = true := by
      intro other _
      rw [decide_eq_true_eq, List.mem_singleton]
      by_cases hsame : other = e
      · exact Or.inr (hsame ▸ hconfigured)
      · exact Or.inl hsame
    rw [forsake, List.filter_eq_self.2 hkept]
  · unfold forsake forget AddressBook.remove
    congr 2
    apply List.filter_congr
    intro other _
    by_cases hsame : other = e
    · simp [hsame, hconfigured]
    · simp [hsame]

theorem nodup_sources (pool : Pool) : pool.sources.Nodup := by
  unfold sources
  simpa using nodup_fresh id pool.policy.selfEndpoint.toList
    (pool.bootNode.toList ++ pool.policy.bootnodes ++ pool.book.entries)

/-- What is found one after the other is what is new. -/
theorem candidates_eq_sources (pool : Pool) : pool.candidates = pool.sources := by
  have hfold (found all : List Endpoint) :
      all.foldl (fun found e => if e ∈ found || pool.isSelf e then found else found ++ [e]) found =
        found ++ fresh id (pool.policy.selfEndpoint.toList ++ found) all := by
    induction all generalizing found with
    | nil => simp
    | cons e rest ih =>
        have hknown : (e ∈ found || pool.isSelf e) = true ↔
            e ∈ pool.policy.selfEndpoint.toList ++ found := by
          simp [isSelf, or_comm]
        rw [List.foldl_cons, ih]
        split_ifs with hfound
        · rw [fresh_cons_of_mem (hknown.1 hfound)]
        · rw [fresh_cons_of_notMem (mt hknown.2 hfound)]
          simp
  unfold candidates sources
  rw [hfold, List.append_nil, List.nil_append]

end Pool

namespace World

variable {world : World} {dial : Dial} {outcomes : Outcomes} {e : Endpoint}

theorem atEndpoint?_of_nobody (hnobody : world.pool.members = []) (e : Endpoint) :
    world.pool.atEndpoint? e = none := by
  simp [Pool.atEndpoint?, hnobody]

/-- A dial that no other node answers comes to nothing, and leaves the pool as it was. -/
theorem connect_in_vain (hdial : dial.Follows outcomes) (hnew : world.pool.atEndpoint? e = none)
    (hvain : ¬ IsAnswered world.pool.localKey (outcomes world.net.dialed e)) :
    ∃ cause missed, world.connect dial e = (.error cause, missed) ∧
      missed.pool = world.pool ∧ missed.net.dialed = world.net.dialed ++ [e] := by
  obtain ⟨met, hpool, hdialed, hmissed, hoffered⟩ := exists_connect hdial hnew
  cases houtcome : outcomes world.net.dialed e with
  | error cause => exact ⟨cause, met, hmissed cause houtcome, hpool, hdialed⟩
  | ok link =>
      have hown : link.identity.publicKey = met.pool.localKey := by
        rw [hpool]
        exact of_not_not fun hother => hvain ⟨link, houtcome, hother⟩
      exact ⟨_, _, (hoffered link houtcome).trans (addPeer_own hown), hpool, hdialed⟩

/-- Another node that answers the dial of a pool without peers joins. -/
theorem connect_answered (hdial : dial.Follows outcomes) (hnobody : world.pool.members = [])
    {link : Link} (hlink : outcomes world.net.dialed e = .ok link)
    (hother : link.identity.publicKey ≠ world.pool.localKey) :
    ∃ met now, world.connect dial e = (.ok (.added world.pool.nextId), met) ∧
      met.pool = world.pool.enroll link now ∧ met.net.dialed = world.net.dialed ++ [e] := by
  obtain ⟨met, hpool, hdialed, -, hoffered⟩ :=
    exists_connect hdial (atEndpoint?_of_nobody hnobody e)
  rw [← hpool] at hnobody hother ⊢
  have hadded := addPeer_added hother (by simp [Pool.withKey?, hnobody])
    (atEndpoint?_of_nobody hnobody link.endpoint)
  exact ⟨_, met.net.clock, (hoffered link hlink).trans hadded, rfl, hdialed⟩

/-- A pool without peers dials endpoints until another node answers, which then joins. -/
theorem exists_bootstrapFrom (hdial : dial.Follows outcomes) (hnobody : world.pool.members = [])
    (endpoints : List Endpoint) :
    ∃ failed left after, endpoints = failed ++ left ∧
      outcomes.InVain world.pool.localKey world.net.dialed failed ∧
      world.bootstrapFrom dial endpoints = (left.head?, after) ∧
      after.net.dialed = world.net.dialed ++ failed ++ left.head?.toList ∧
      (left = [] → after.pool = world.pool.forsake failed) ∧
      ∀ e rest, left = e :: rest → ∃ link now,
        outcomes (world.net.dialed ++ failed) e = .ok link ∧
        link.identity.publicKey ≠ world.pool.localKey ∧
        after.pool = { (world.pool.forsake failed).enroll link now with
          bootNode := if e ∈ world.pool.policy.bootnodes then some e else world.pool.bootNode } := by
  induction endpoints generalizing world with
  | nil => exact ⟨[], [], world, rfl, trivial, rfl, by simp, by simp, nofun⟩
  | cons e rest ih =>
      rw [bootstrapFrom]
      by_cases hanswered : IsAnswered world.pool.localKey (outcomes world.net.dialed e)
      · obtain ⟨link, hlink, hother⟩ := hanswered
        obtain ⟨met, now, hconnect, hpool, hdialed⟩ := connect_answered hdial hnobody hlink hother
        rw [hconnect]
        refine ⟨[], e :: rest, _, rfl, trivial, rfl, ?_, nofun, ?_⟩
        · simpa [withPool] using hdialed
        · rintro first others ⟨⟩
          refine ⟨link, now, by simpa using hlink, hother, ?_⟩
          simp only [withPool, hpool, Pool.forsake_nil]
          have hpolicy : (world.pool.enroll link now).policy = world.pool.policy := rfl
          rw [hpolicy]
          split <;> rfl
      · have hnew := atEndpoint?_of_nobody hnobody e
        obtain ⟨cause, missed, hconnect, hpool, hdialed⟩ := connect_in_vain hdial hnew hanswered
        rw [hconnect]
        dsimp only
        -- the others are dialed with one endpoint more in vain
        obtain ⟨next, hnext⟩ : ∃ next : World, next = missed.withPool fun pool =>
            if e ∈ pool.policy.bootnodes then pool else pool.forget e := ⟨_, rfl⟩
        have hforsaken : next.pool = world.pool.forsake [e] := by
          rw [hnext, ← hpool]
          exact missed.pool.forsake_singleton e
        have hhistory : next.net.dialed = world.net.dialed ++ [e] := by
          rw [hnext]
          exact hdialed
        rw [← hnext]
        obtain ⟨failed, left, after, hsplit, hvain, hrest, hafter, hnone, hfound⟩ :=
          @ih next (hforsaken ▸ hnobody)
        rw [hforsaken] at hvain hnone hfound
        rw [hhistory] at hvain hafter hfound
        refine ⟨e :: failed, left, after, by rw [hsplit]; rfl, ⟨hanswered, hvain⟩, hrest, ?_, ?_, ?_⟩
        · simpa using hafter
        · intro hleft
          rw [hnone hleft, Pool.forsake_append]
          rfl
        · intro first others hleft
          obtain ⟨link, now, hlink, hother, hpool⟩ := hfound first others hleft
          refine ⟨link, now, by simpa using hlink, hother, ?_⟩
          rw [hpool, Pool.forsake_append]
          rfl

/-- **How a first peer is found.**  A pool without peers dials the endpoints that it starts from in
their order, none of them twice, up to the first that another node answers, which is what comes back.
That node joins, and nobody else does; its endpoint is preferred from then on if it is configured,
and otherwise the same one as before.  Out of the book go exactly the endpoints that were dialed in
vain and are not configured. -/
theorem bootstrap_until_answered (hdial : dial.Follows outcomes) (hstraight : outcomes.Straight)
    (hnobody : world.pool.members = []) :
    ∃ failed left after, world.bootstrap dial = (left.head?, after) ∧
      world.pool.sources = failed ++ left ∧ (failed ++ left.head?.toList).Nodup ∧
      outcomes.InVain world.pool.localKey world.net.dialed failed ∧
      after.net.dialed = world.net.dialed ++ failed ++ left.head?.toList ∧
      (left = [] → after.pool = world.pool.forsake failed) ∧
      ∀ e rest, left = e :: rest → ∃ link now,
        outcomes (world.net.dialed ++ failed) e = .ok link ∧
        link.identity.publicKey ≠ world.pool.localKey ∧ link.endpoint = e ∧
        after.pool.members = [Peer.start world.pool.nextId link world.pool.policy.link] ∧
        after.pool = { (world.pool.forsake failed).enroll link now with
          bootNode := if e ∈ world.pool.policy.bootnodes then some e else world.pool.bootNode } := by
  obtain ⟨failed, left, after, hsplit, hvain, hdone, hdialed, hnone, hfound⟩ :=
    exists_bootstrapFrom hdial hnobody world.pool.candidates
  rw [Pool.candidates_eq_sources] at hsplit
  refine ⟨failed, left, after, hdone, hsplit, ?_, hvain, hdialed, hnone, ?_⟩
  · have hnodup := world.pool.nodup_sources
    rw [hsplit] at hnodup
    cases left with
    | nil => simpa using hnodup
    | cons e rest =>
        have hprefix : (failed ++ [e]).Sublist (failed ++ e :: rest) := by simp
        exact hnodup.sublist hprefix
  · intro e rest hleft
    obtain ⟨link, now, hlink, hother, hpool⟩ := hfound e rest hleft
    refine ⟨link, now, hlink, hother, hstraight _ e link hlink, ?_, hpool⟩
    rw [hpool]
    simp [Pool.enroll, Pool.tell, Pool.forsake, hnobody]

end World

/-! ## The last source -/

/-- A pool that starts from `a`, the own endpoint, `c` and `a` once more, and has heard of others. -/
def sparse : Pool where
  policy := { bootnodes := [⟨"a", 1⟩, ⟨"me", 1⟩, ⟨"c", 1⟩, ⟨"a", 1⟩], selfEndpoint := some ⟨"me", 1⟩ }
  localKey := [0]
  bootNode := some ⟨"a", 1⟩
  book := { entries := [⟨"x", 1⟩, ⟨"c", 1⟩, ⟨"y", 1⟩, ⟨"z", 1⟩] }

/-- Oneself answers at `c`, another node at `y`, and nobody elsewhere. -/
def sparseOutcomes : Outcomes := fun _ e =>
  if e = ⟨"c", 1⟩ then .ok ⟨0, ⟨[0], 1, 1⟩, e, .outbound⟩
  else if e = ⟨"y", 1⟩ then .ok ⟨1, ⟨[7], 1, 1⟩, e, .outbound⟩
  else .error (.io "refused")

theorem straight_sparseOutcomes : sparseOutcomes.Straight := by
  intro history e link hlink
  unfold sparseOutcomes at hlink
  split_ifs at hlink
  · rw [← Except.ok.inj hlink]
  · rw [← Except.ok.inj hlink]

/-- The node at `y` is found, and of the book only `x` is lost. -/
theorem World.bootstrap_until_answered_sparse :
    ∃ after, World.bootstrap sparseOutcomes.dial { pool := sparse } = (some ⟨"y", 1⟩, after) ∧
      sparseOutcomes.InVain [0] [] [⟨"a", 1⟩, ⟨"c", 1⟩, ⟨"x", 1⟩] ∧
      after.net.dialed = [⟨"a", 1⟩, ⟨"c", 1⟩, ⟨"x", 1⟩, ⟨"y", 1⟩] ∧
      after.pool.book.entries = [⟨"c", 1⟩, ⟨"y", 1⟩, ⟨"z", 1⟩] ∧
      after.pool.bootNode = some ⟨"a", 1⟩ := by
  obtain ⟨failed, left, after, hdone, -, -, hvain, hdialed, -, hfound⟩ :=
    @World.bootstrap_until_answered { pool := sparse } _ _ sparseOutcomes.follows_dial
      straight_sparseOutcomes rfl
  have hleft : some ⟨"y", 1⟩ = left.head? := congrArg Prod.fst hdone
  have hafter : [⟨"a", 1⟩, ⟨"c", 1⟩, ⟨"x", 1⟩, ⟨"y", 1⟩] = after.net.dialed :=
    congrArg (·.2.net.dialed) hdone
  have hbook : [⟨"c", 1⟩, ⟨"y", 1⟩, ⟨"z", 1⟩] = after.pool.book.entries :=
    congrArg (·.2.pool.book.entries) hdone
  have hboot : some ⟨"a", 1⟩ = after.pool.bootNode := congrArg (·.2.pool.bootNode) hdone
  refine ⟨after, ?_, ?_, hafter.symm, hbook.symm, hboot.symm⟩
  · rw [hdone, ← hleft]
  · rw [← hafter, ← hleft] at hdialed
    obtain rfl : [⟨"a", 1⟩, ⟨"c", 1⟩, ⟨"x", 1⟩] = failed := List.append_cancel_right hdialed
    exact hvain

end Overlay
