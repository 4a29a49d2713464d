import Overlay.Proofs.Pool.MembershipThreads

/-!
# How the store drifts away from the members

The list of the members changes under its lock, and the store after it.  Two
changes at one endpoint may reach the store in the other order, and then the
store and the list disagree when all threads are done (`MembershipThreads.drifts`).  As
long as every change at an endpoint waits until the store has heard of the one
before, they agree (`MembershipThreads.agrees_of_run`).
-/

namespace Overlay

open Wire

namespace Errand

/-- The store is to record an endpoint. -/
def records (e : Endpoint) : Errand → Bool
  | .record card => card.endpoint = e
  | _ => false

/-- The store is to forget an endpoint. -/
def forgets (e : Endpoint) : Errand → Bool
  | .dismiss peer _ forget => forget && peer.endpoint = e
  | .strike card => card.endpoint = e
  | _ => false

/-- The store is still to hear of a change at an endpoint. -/
def concerns (e : Endpoint) (errand : Errand) : Bool :=
  errand.records e || errand.forgets e

variable {e : Endpoint} {errand : Errand}

theorem Begins.records (hbegins : errand.Begins) : errand.records e = false := by
  cases errand with
  | record card => exact hbegins.elim
  | _ => rfl

theorem Begins.forgets (hbegins : errand.Begins) : errand.forgets e = false := by
  cases errand with
  | dismiss peer goodbye forget => exact hbegins.elim
  | strike card => exact hbegins.elim
  | _ => rfl

end Errand

/-- The members at an endpoint are known to the store, and if the last one was to be forgotten, the
store does not know it. -/
structure Ledger.Agrees (ledger : Ledger) (forgotten : List Endpoint) (e : Endpoint) : Prop where
  known : ∀ store ∈ ledger.store, ∀ card ∈ ledger.members, card.endpoint = e → store.contains e
  unknown : ∀ store ∈ ledger.store, e ∈ forgotten → store.contains e = false

/-- What holds at an endpoint that the store is to record, is to forget, or neither. -/
structure Ledger.Careful (ledger : Ledger) (forgotten : List Endpoint) (e : Endpoint)
    (records forgets : Bool) : Prop where
  present : ∀ card ∈ ledger.members, card.endpoint = e → e ∉ forgotten
  coming : records = true → e ∉ forgotten
  going : forgets = true → ∀ card ∈ ledger.members, card.endpoint ≠ e
  idle : records = false → forgets = false → ledger.Agrees forgotten e

namespace Ledger.Careful

variable {ledger after : Ledger} {forgotten later : List Endpoint} {e : Endpoint}
  {records forgets : Bool}

/-- A change that brings nobody to an endpoint, and neither forgets it nor changes what the store
knows of it. -/
theorem elsewhere (hcareful : ledger.Careful forgotten e records forgets)
    (hmembers : ∀ card ∈ after.members, card.endpoint = e → card ∈ ledger.members)
    (hforgotten : e ∈ later → e ∈ forgotten)
    (hstore : ∀ store ∈ after.store, ∃ before ∈ ledger.store, store.contains e = before.contains e) :
    after.Careful later e records forgets where
  present _ hcard he := mt hforgotten (hcareful.present _ (hmembers _ hcard he) he)
  coming hrecords := mt hforgotten (hcareful.coming hrecords)
  going hforgets _ hcard he := hcareful.going hforgets _ (hmembers _ hcard he) he
  idle hrecords hforgets := by
    obtain ⟨hknown, hunknown⟩ := hcareful.idle hrecords hforgets
    refine ⟨fun store hafter card hcard he => ?_, fun store hafter hlater => ?_⟩
    · obtain ⟨before, hbefore, hsame⟩ := hstore store hafter
      rw [hsame]
      exact hknown before hbefore card (hmembers card hcard he) he
    · obtain ⟨before, hbefore, hsame⟩ := hstore store hafter
      rw [hsame]
      exact hunknown before hbefore (hforgotten hlater)

/-- A section that lets nobody join and leaves the store alone. -/
theorem aside (hcareful : ledger.Careful forgotten e records forgets)
    (hmembers : after.members ⊆ ledger.members) (hstore : after.store = ledger.store)
    (hforgotten : e ∈ later → e ∈ forgotten) : after.Careful later e records forgets :=
  hcareful.elsewhere (fun _ hcard _ => hmembers hcard) hforgotten fun store hafter =>
    ⟨store, hstore ▸ hafter, rfl⟩

/-- A node joins at an endpoint where nothing is under way. -/
theorem enlist {card : Peer.Card} :
    (ledger.enlist card).Careful (forgotten.filter (· ≠ card.endpoint)) card.endpoint true false where
  present _ _ _ := by simp
  coming _ := by simp
  going := nofun
  idle := nofun

/-- A node joins elsewhere. -/
theorem enlist_elsewhere (hcareful : ledger.Careful forgotten e records forgets) {card : Peer.Card}
    (he : card.endpoint ≠ e) :
    (ledger.enlist card).Careful
      (forgotten.filter (· ≠ card.endpoint)) e records forgets := by
  refine hcareful.elsewhere (fun other hother hsame => ?_) List.mem_of_mem_filter
    fun store hstore => ⟨store, hstore, rfl⟩
  rcases List.mem_append.1 hother with hbefore | hjoined
  · exact hbefore
  · rw [List.mem_singleton.1 hjoined] at hsame
    exact absurd hsame he

/-- The store records an endpoint that it was to record. -/
theorem record {card : Peer.Card} (hcareful : ledger.Careful forgotten card.endpoint true false)
    (now : Int64) :
    (ledger.record card.endpoint now).Careful forgotten card.endpoint false false where
  present := hcareful.present
  coming := nofun
  going := nofun
  idle _ _ := by
    refine ⟨fun store hstore _ _ _ => ?_, fun _ _ hforgotten => ?_⟩
    · obtain ⟨before, -, rfl⟩ := Option.map_eq_some_iff.1 hstore
      rw [PeerStore.contains_add, beq_self_eq_true, Bool.true_or]
    · exact absurd hforgotten (hcareful.coming rfl)

theorem record_elsewhere (hcareful : ledger.Careful forgotten e records forgets)
    {card : Peer.Card} (he : card.endpoint ≠ e) (now : Int64) :
    (ledger.record card.endpoint now).Careful forgotten e records forgets := by
  refine hcareful.elsewhere (fun _ hother _ => hother) id fun store hstore => ?_
  obtain ⟨before, hbefore, rfl⟩ := Option.map_eq_some_iff.1 hstore
  refine ⟨before, hbefore, ?_⟩
  rw [PeerStore.contains_add, beq_false_of_ne he, Bool.false_or]

/-- The member at an endpoint is taken out, to be forgotten. -/
theorem unlist (htidy : ledger.Tidy) {card : Peer.Card} (hmember : card ∈ ledger.members) :
    (ledger.unlist card.id).Careful (card.endpoint :: forgotten) card.endpoint false true := by
  have hnobody : ∀ other ∈ ledger.members.filter (·.id ≠ card.id),
      other.endpoint ≠ card.endpoint := by
    intro other hother he
    obtain ⟨hbefore, hne⟩ := List.mem_filter.1 hother
    rw [htidy.eq_of_endpoint hbefore hmember he] at hne
    simp at hne
  exact ⟨fun other hother he => absurd he (hnobody other hother), nofun, fun _ => hnobody, nofun⟩

/-- The store forgets an endpoint that it was to forget. -/
theorem strike {card : Peer.Card} (hcareful : ledger.Careful forgotten card.endpoint false true) :
    (ledger.strike card.endpoint).Careful forgotten card.endpoint false false where
  present := hcareful.present
  coming := nofun
  going := nofun
  idle _ _ := by
    refine ⟨fun _ _ other hother he => ?_, fun store hstore _ => ?_⟩
    · exact absurd he (hcareful.going rfl other hother)
    · obtain ⟨before, -, rfl⟩ := Option.map_eq_some_iff.1 hstore
      rw [PeerStore.contains_remove, bne_self_eq_false, Bool.false_and]

theorem strike_elsewhere (hcareful : ledger.Careful forgotten e records forgets)
    {card : Peer.Card} (he : card.endpoint ≠ e) :
    (ledger.strike card.endpoint).Careful forgotten e records forgets := by
  refine hcareful.elsewhere (fun _ hother _ => hother) id fun store hstore => ?_
  obtain ⟨before, hbefore, rfl⟩ := Option.map_eq_some_iff.1 hstore
  refine ⟨before, hbefore, ?_⟩
  rw [PeerStore.contains_remove, bne_iff_ne.2 he, Bool.true_and]

/-- A section keeps an endpoint as it should be, if an errand about the endpoint is the only one. -/
theorem move (htidy : ledger.Tidy) {errand : Errand} {next : Option Errand}
    (hcareful : ledger.Careful forgotten e (errand.records e || records)
      (errand.forgets e || forgets))
    (hmove : errand.Move ledger next after)
    (honly : errand.concerns e = true → records = false ∧ forgets = false)
    (halone : next.any (·.concerns e) = true → records = false ∧ forgets = false) :
    after.Careful (MembershipThreads.noted forgotten next) e (next.any (·.records e) || records)
      (next.any (·.forgets e) || forgets) := by
  cases hmove with
  | @joined link card now hadmits =>
      by_cases he : card.endpoint = e
      · subst he
        obtain ⟨rfl, rfl⟩ := halone (by simp [Errand.concerns, Errand.records])
        simp only [Option.any_some, Errand.records, Errand.forgets, decide_true, Bool.or_false]
        exact enlist
      · simp only [Option.any_some, Errand.records, Errand.forgets, he, decide_false, Bool.false_or]
        exact hcareful.enlist_elsewhere he
  | @recorded card now =>
      by_cases he : card.endpoint = e
      · subst he
        obtain ⟨rfl, rfl⟩ := honly (by simp [Errand.concerns, Errand.records])
        simp only [Errand.records, Errand.forgets, decide_true, Bool.or_false] at hcareful
        exact hcareful.record now
      · simp only [Errand.records, Errand.forgets, he, decide_false, Bool.false_or] at hcareful
        exact hcareful.record_elsewhere he now
  | @taken peer goodbye forget hmember =>
      by_cases hforget : forget = true ∧ peer.endpoint = e
      · obtain ⟨rfl, rfl⟩ := hforget
        obtain ⟨rfl, rfl⟩ := halone (by simp [Errand.concerns, Errand.forgets])
        simp only [Option.any_some, Errand.records, Errand.forgets, decide_true, Bool.and_true,
          Bool.or_false]
        exact unlist htidy hmember
      · have hnot : (forget && decide (peer.endpoint = e)) = false := by simpa using hforget
        have hgone : (ledger.unlist peer.id).Careful (MembershipThreads.noted forgotten
            (some (.dismiss peer goodbye forget))) e records forgets := by
          refine aside hcareful (List.filter_sublist.subset) rfl fun hlater => ?_
          cases forget with
          | false => exact hlater
          | true =>
              rcases List.mem_cons.1 hlater with rfl | hbefore
              · exact absurd ⟨rfl, rfl⟩ hforget
              · exact hbefore
        simpa only [Option.any_some, Errand.records, Errand.forgets, hnot, Bool.false_or] using hgone
  | @dismissed peer goodbye forget => cases forget <;> exact hcareful
  | @struck card =>
      by_cases he : card.endpoint = e
      · subst he
        obtain ⟨rfl, rfl⟩ := honly (by simp [Errand.concerns, Errand.forgets])
        simp only [Errand.records, Errand.forgets, decide_true, Bool.or_false] at hcareful
        exact hcareful.strike
      · simp only [Errand.records, Errand.forgets, he, decide_false, Bool.false_or] at hcareful
        exact hcareful.strike_elsewhere he
  | nothing hbegins =>
      rw [hbegins.records, hbegins.forgets] at hcareful
      exact hcareful
  | unstarted | announced | parted | heard | leaving | delivered =>
      exact hcareful.aside (List.Subset.refl _) rfl id

end Ledger.Careful

namespace MembershipThreads

/-- How many changes at an endpoint the store is still to hear of. -/
def busyAt (threads : MembershipThreads) (e : Endpoint) : Nat :=
  threads.errands.countP (·.concerns e)

/-- An endpoint is as it should be, and the store is to hear of one change there at most. -/
structure Watched (threads : MembershipThreads) (e : Endpoint) : Prop where
  single : threads.busyAt e ≤ 1
  careful : threads.ledger.Careful threads.forgotten e (threads.errands.any (·.records e))
    (threads.errands.any (·.forgets e))

variable {threads after : MembershipThreads} {e : Endpoint}

/-- If an errand about an endpoint is the only one, no other is about it. -/
theorem others_idle {errand : Errand} {others : List Errand} (hconcerns : errand.concerns e = true)
    (hsingle : (errand :: others).countP (·.concerns e) ≤ 1) :
    others.any (·.records e) = false ∧ others.any (·.forgets e) = false := by
  rw [List.countP_cons_of_pos hconcerns, Nat.succ_le_succ_iff, Nat.le_zero,
    List.countP_eq_zero] at hsingle
  simp only [Errand.concerns, Bool.or_eq_true, not_or] at hsingle
  simp only [List.any_eq_false]
  exact ⟨fun other hother => (hsingle other hother).1, fun other hother => (hsingle other hother).2⟩

theorem Watched.step (hwatched : threads.Watched e) (htidy : threads.ledger.Tidy)
    (hstep : threads.Step after) (hsingle : after.busyAt e ≤ 1) : after.Watched e := by
  refine ⟨hsingle, ?_⟩
  have hcareful := hwatched.careful
  rcases hstep.cases (Pool.tidy_iff.1 htidy) with ⟨hledger, hforgotten, asked, hasked, herrands⟩ |
    ⟨errand, next, others, hbefore, hafter, hmove, hforgotten⟩
  · -- errands that have just begun are not about the store
    have hrecords : asked.any (·.records e) = false :=
      List.any_eq_false.2 fun errand hmem => by simp [(hasked errand hmem).records]
    have hforgets : asked.any (·.forgets e) = false :=
      List.any_eq_false.2 fun errand hmem => by simp [(hasked errand hmem).forgets]
    rw [hledger, hforgotten, herrands.any_eq, herrands.any_eq, List.any_append, List.any_append,
      hrecords, hforgets]
    exact hcareful
  · have hbusy := hwatched.single
    rw [busyAt, hbefore.countP_eq] at hbusy
    rw [busyAt, hafter.countP_eq] at hsingle
    rw [hbefore.any_eq, hbefore.any_eq] at hcareful
    rw [hforgotten, hafter.any_eq, hafter.any_eq, List.any_append, List.any_append]
    have hmoved := hcareful.move htidy hmove (fun hconcerns => others_idle hconcerns hbusy)
      fun hconcerns => ?_
    · cases next <;> simpa using hmoved
    · cases next with
      | none => exact absurd hconcerns Bool.false_ne_true
      | some coming => exact others_idle hconcerns hsingle

variable {policy : PoolPolicy} {localKey : Bytes} {store : Option PeerStore} {net : Net}

theorem watched_of_run (hrun : Run (·.busyAt e ≤ 1) (start policy localKey store net) threads) :
    threads.Watched e := by
  induction hrun with
  | rest => exact ⟨Nat.zero_le 1, nofun, nofun, nofun, fun _ _ => ⟨nofun, nofun⟩⟩
  | step hrun hstep hsingle ih =>
      exact ih.step (hrun.tidy (tidy_start policy localKey store net)) hstep hsingle

/-- If at every point the store has still to hear of one change at an endpoint at most, it agrees
with the members there whenever it has heard of them all. -/
theorem agrees_of_run (hrun : Run (·.busyAt e ≤ 1) (start policy localKey store net) threads)
    (hidle : threads.busyAt e = 0) : threads.ledger.Agrees threads.forgotten e := by
  rw [busyAt, List.countP_eq_zero] at hidle
  simp only [Errand.concerns, Bool.or_eq_true, not_or] at hidle
  exact (watched_of_run hrun).careful.idle
    (List.any_eq_false.2 fun errand hmem => (hidle errand hmem).1)
    (List.any_eq_false.2 fun errand hmem => (hidle errand hmem).2)

/-- Two nodes join at once, and one of them leaves before the store knows the other. -/
def sideBySide : List Turn :=
  [.ask (.join Life.inboundLink), .ask (.join otherLink), .go 0, .go 1, .go 0, .go 0,
    .ask (.expel 1 true true), .go 1, .go 1, .go 1]

/-- Two nodes join and one of them leaves.  The store no longer knows the one, and does not yet know
the other. -/
theorem agrees_of_run_sideBySide :
    ∃ threads, Run (·.busyAt ⟨"b", 7000⟩ ≤ 1) (start {} [0] (some {}) {}) threads ∧
      threads.busyAt ⟨"c", 7000⟩ = 1 ∧ threads.busyAt ⟨"b", 7000⟩ = 0 ∧
      threads.forgotten = [⟨"b", 7000⟩] ∧ threads.ledger.Agrees threads.forgotten ⟨"b", 7000⟩ := by
  have hrun : Run (·.busyAt ⟨"b", 7000⟩ ≤ 1) (start {} [0] (some {}) {})
      ((start {} [0] (some {}) {}).play sideBySide) :=
    run_play (by simp [sideBySide, Turn.Begins, Errand.Begins]) (by decide)
  have hidle : ((start {} [0] (some {}) {}).play sideBySide).busyAt ⟨"b", 7000⟩ = 0 := by decide
  exact ⟨_, hrun, by decide, hidle, rfl, agrees_of_run hrun hidle⟩

/-! ## Two changes at one endpoint -/

/-- A node joins and is removed, and is back before the store has heard that it was removed. -/
def rejoined : List Turn :=
  [.ask (.join Life.inboundLink), .go 0, .go 0, .go 0, .ask (.expel 1 true true), .go 0,
    .ask (.join Life.inboundLink), .go 1, .go 1, .go 1, .go 0, .go 0, .go 0]

/-- A node joins, and is removed before the store has heard that it joined. -/
def overtaken : List Turn :=
  [.ask (.join Life.inboundLink), .go 0, .ask (.expel 1 true true), .go 1, .go 1, .go 1, .go 1,
    .go 0, .go 0]

/-- **Threads that come and go as they will leave the store out of step.**  All of them are done, and
the store does not know the endpoint of a member, or knows that of one that was to be forgotten. -/
theorem drifts :
    (∃ threads, Run (fun _ => True) (start {} [0] (some {}) {}) threads ∧ threads.errands = [] ∧
      ∃ store ∈ threads.ledger.store, ∃ card ∈ threads.ledger.members,
        store.contains card.endpoint = false) ∧
    ∃ threads, Run (fun _ => True) (start {} [0] (some {}) {}) threads ∧ threads.errands = [] ∧
      threads.ledger.members = [] ∧
      ∃ store ∈ threads.ledger.store, ∃ e ∈ threads.forgotten, store.contains e = true := by
  refine ⟨⟨_, run_play_any rejoined ?_, rfl, _, rfl, ⟨2, _, ⟨"b", 7000⟩⟩, .head _, ?_⟩,
    ⟨_, run_play_any overtaken ?_, rfl, rfl, _, rfl, ⟨"b", 7000⟩, .head _, ?_⟩⟩
  · simp [rejoined, Turn.Begins, Errand.Begins]
  · exact PeerStore.contains_remove _ _ _
  · simp [overtaken, Turn.Begins, Errand.Begins]
  · exact PeerStore.contains_add _ _ _ _

end MembershipThreads

end Overlay
