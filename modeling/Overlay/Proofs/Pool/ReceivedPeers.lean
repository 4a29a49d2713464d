import Overlay.Proofs.Pool.Dialing

/-!
# Lists of peers that were received

A pool that hears of endpoints dials them one after the other, and passes over
its own and those of its members.  The members stay, and behind them join the
first nodes of each key that was not known.  A member that waits for a line is
resumed by one to its node, and no other line is of use.  What was dialed is
learned, whether anybody answered or not, as far as there is room in the book.

The pool is orderly, as every pool is that has come about (`ConcurrentPool.Sound`).
-/

namespace Overlay

/-! ## What is learned -/

namespace AddressBook

/-- A book that has learned of endpoints: those that are new, as far as there is room. -/
def learned (book : AddressBook) (endpoints : List Endpoint) : AddressBook :=
  { book with
    entries := book.entries ++
      (fresh id book.entries endpoints).take (book.capacity - book.entries.length) }

variable {book : AddressBook} {e : Endpoint}

@[simp] theorem learned_nil (book : AddressBook) : book.learned [] = book := by
  simp [learned]

/-- An endpoint is learned before those that are heard of later. -/
theorem learned_cons (book : AddressBook) (e : Endpoint) (rest : List Endpoint) :
    book.learned (e :: rest) = (book.learn e).learned rest := by
  by_cases hknown : e ∈ book.entries
  · rw [learn_of_known_or_full (Or.inl hknown), learned, fresh_cons_of_mem hknown]
    rfl
  · by_cases hfull : book.capacity ≤ book.entries.length
    · have hroom : book.capacity - book.entries.length = 0 := by omega
      rw [learn_of_known_or_full (Or.inr hfull)]
      simp [learned, hroom]
    · have hfits := Nat.lt_of_not_le hfull
      obtain ⟨room, hroom⟩ := Nat.exists_eq_add_of_lt hfits
      have hbefore : book.capacity - book.entries.length = room + 1 := by omega
      have hafter : book.capacity - (book.entries.length + 1) = room := by omega
      rw [learn_of_room hknown hfits, learned, fresh_cons_of_notMem hknown, hbefore]
      simp [learned, hafter]

theorem learned_append (book : AddressBook) (endpoints more : List Endpoint) :
    book.learned (endpoints ++ more) = (book.learned endpoints).learned more := by
  induction endpoints generalizing book with
  | nil => rw [List.nil_append, learned_nil]
  | cons e rest ih => rw [List.cons_append, learned_cons, ih, ← learned_cons]

end AddressBook

/-! ## Who is met -/

/-- The key of the node at the far end of a link. -/
def Link.key (link : Link) : Bytes :=
  link.identity.publicKey

namespace Peer

variable {peer : Peer} {link : Link}

/-- A peer that waits for a line takes one to its own node, and nothing else is of use to it. -/
def meet (peer : Peer) (link : Link) : Peer :=
  if link.key = peer.identity.publicKey then (peer.adopt link.line).getD peer else peer

theorem meet_of_ne (hother : link.key ≠ peer.identity.publicKey) : peer.meet link = peer := by
  rw [meet, if_neg hother]

theorem meet_of_adopt {adopted : Peer} (hsame : link.key = peer.identity.publicKey)
    (hadopt : peer.adopt link.line = some adopted) : peer.meet link = adopted := by
  rw [meet, if_pos hsame, hadopt, Option.getD_some]

theorem meet_of_adopt_none (hadopt : peer.adopt link.line = none) : peer.meet link = peer := by
  rw [meet, hadopt, Option.getD_none, ite_self]

theorem card_meet (peer : Peer) (link : Link) : (peer.meet link).card = peer.card := by
  by_cases hsame : link.key = peer.identity.publicKey
  · cases hadopt : peer.adopt link.line with
    | none => rw [meet_of_adopt_none hadopt]
    | some adopted =>
        rw [meet_of_adopt hsame hadopt]
        exact congrArg (·.toCard) (gist_of_adopt hadopt)
  · rw [meet_of_ne hsame]

/-- Whatever a peer meets, it stays the node that it was. -/
theorem card_foldl_meet (peer : Peer) (links : List Link) :
    (links.foldl meet peer).card = peer.card := by
  induction links generalizing peer with
  | nil => rfl
  | cons link rest ih => rw [List.foldl_cons, ih, card_meet]

/-- A peer that has just been started waits for no line. -/
theorem foldl_meet_start (id : Nat) (link : Link) (policy : LinkPolicy) (links : List Link) :
    links.foldl meet (start id link policy) = start id link policy := by
  induction links with
  | nil => rfl
  | cons first rest ih =>
      have hbusy : (start id link policy).adopt first.line = none :=
        (adopt_eq_none_iff _ _).2 nofun
      rw [List.foldl_cons, meet_of_adopt_none hbusy, ih]

end Peer

namespace Pool

variable {pool : Pool} {link : Link}

/-- The keys that are known: the own one and those of the members. -/
def keys (pool : Pool) : List Bytes :=
  pool.localKey :: pool.members.map (·.identity.publicKey)

/-- The peers that links bring into a pool: the first of each key that was not known. -/
def newcomers (pool : Pool) (links : List Link) : List Peer :=
  ((fresh Link.key pool.keys links).zipIdx pool.nextId).map fun joined =>
    Peer.start joined.2 joined.1 pool.policy.link

/-- A pool to which links have come, apart from what it keeps in its store. -/
def welcome (pool : Pool) (links : List Link) : Pool :=
  { pool with
    members := pool.members.map (fun peer => links.foldl Peer.meet peer) ++ pool.newcomers links
    nextId := pool.nextId + (pool.newcomers links).length
    told := pool.told ++ (pool.newcomers links).map fun peer => .joined peer.id peer.endpoint }

@[simp] theorem newcomers_nil (pool : Pool) : pool.newcomers [] = [] := by
  simp [newcomers]

@[simp] theorem welcome_nil (pool : Pool) : pool.welcome [] = pool := by
  simp [welcome]

/-- Those who have met others have the keys that they had. -/
theorem map_key_meet (members : List Peer) (links : List Link) :
    (members.map fun peer => links.foldl Peer.meet peer).map (·.identity.publicKey) =
      members.map (·.identity.publicKey) := by
  rw [List.map_map]
  apply List.map_congr_left
  intro peer _
  exact congrArg (·.identity.publicKey) (peer.card_foldl_meet links)

theorem newcomers_of_mem (hknown : link.key ∈ pool.keys) : pool.newcomers [link] = [] := by
  rw [newcomers, fresh_cons_of_mem hknown]
  simp

theorem newcomers_of_notMem (hnew : link.key ∉ pool.keys) :
    pool.newcomers [link] = [Peer.start pool.nextId link pool.policy.link] := by
  rw [newcomers, fresh_cons_of_notMem hnew]
  simp

/-- Who comes with a link comes before those whom later links bring. -/
theorem newcomers_cons (pool : Pool) (link : Link) (rest : List Link) :
    pool.newcomers (link :: rest) =
      pool.newcomers [link] ++ (pool.welcome [link]).newcomers rest := by
  by_cases hknown : link.key ∈ pool.keys
  · have hkeys : (pool.welcome [link]).keys = pool.keys := by
      simp only [keys, welcome, newcomers_of_mem hknown, List.append_nil, map_key_meet]
    have hnext : (pool.welcome [link]).nextId = pool.nextId := by
      simp [welcome, newcomers_of_mem hknown]
    rw [newcomers_of_mem hknown, List.nil_append, newcomers, newcomers, fresh_cons_of_mem hknown,
      hkeys, hnext]
    rfl
  · have hkeys : (pool.welcome [link]).keys = pool.keys ++ [link.key] := by
      simp only [keys, welcome, newcomers_of_notMem hknown, List.map_append, map_key_meet]
      rfl
    have hnext : (pool.welcome [link]).nextId = pool.nextId + 1 := by
      simp [welcome, newcomers_of_notMem hknown]
    rw [newcomers_of_notMem hknown, newcomers, newcomers, fresh_cons_of_notMem hknown, hkeys, hnext]
    rfl

theorem welcome_cons (pool : Pool) (link : Link) (rest : List Link) :
    pool.welcome (link :: rest) = (pool.welcome [link]).welcome rest := by
  have hstarted : (pool.newcomers [link]).map (fun peer => rest.foldl Peer.meet peer) =
      pool.newcomers [link] := by
    simp [newcomers, Peer.foldl_meet_start]
  simp only [welcome, newcomers_cons pool link rest]
  simp [hstarted, Nat.add_assoc]

theorem newcomers_append (pool : Pool) (links more : List Link) :
    pool.newcomers (links ++ more) =
      pool.newcomers links ++ (pool.welcome links).newcomers more := by
  induction links generalizing pool with
  | nil => simp
  | cons link rest ih =>
      rw [List.cons_append, newcomers_cons, ih, newcomers_cons pool link rest,
        welcome_cons pool link rest, List.append_assoc]

theorem welcome_append (pool : Pool) (links more : List Link) :
    pool.welcome (links ++ more) = (pool.welcome links).welcome more := by
  induction links generalizing pool with
  | nil => rw [List.nil_append, welcome_nil]
  | cons link rest ih => rw [List.cons_append, welcome_cons, ih, ← welcome_cons]

end Pool

/-- How many members a pool has gained by a link. -/
def gain : Except NetError Admission → Nat
  | .ok (.added _) => 1
  | _ => 0

namespace Pool

variable {pool : Pool} {link : Link}

/-- A link that is of no use to a member lets all be as they are. -/
theorem map_meet_of_useless
    (huseless : ∀ peer ∈ pool.members, link.key = peer.identity.publicKey →
      peer.adopt link.line = none) :
    pool.members.map (fun peer => [link].foldl Peer.meet peer) = pool.members := by
  have hsame : ∀ peer ∈ pool.members, [link].foldl Peer.meet peer = peer := by
    intro peer hmember
    show peer.meet link = peer
    by_cases hown : link.key = peer.identity.publicKey
    · exact Peer.meet_of_adopt_none (huseless peer hmember hown)
    · exact Peer.meet_of_ne hown
  rw [List.map_congr_left hsame, List.map_id']

/-- A link with which nobody comes is of use to one of the members at most. -/
theorem welcome_of_mem (hknown : link.key ∈ pool.keys) :
    pool.welcome [link] =
      { pool with members := pool.members.map fun peer => [link].foldl Peer.meet peer } := by
  simp [welcome, newcomers_of_mem hknown]

/-- A member that waits for a line is resumed when it meets its own node. -/
theorem Orderly.change_adopted (horderly : pool.Orderly) {peer adopted : Peer}
    (hmember : peer ∈ pool.members) (hkey : link.key = peer.identity.publicKey)
    (hadopt : peer.adopt link.line = some adopted) :
    pool.change peer.id (fun _ => adopted) = pool.welcome [link] := by
  have hknown : link.key ∈ pool.keys := by
    rw [hkey]
    exact List.mem_cons_of_mem _ (List.mem_map_of_mem hmember)
  rw [welcome_of_mem hknown, change]
  congr 1
  apply List.map_congr_left
  intro other hother
  show (if other.id = peer.id then adopted else other) = other.meet link
  split_ifs with hid
  · rw [horderly.eq_of_id hother hmember hid, Peer.meet_of_adopt hkey hadopt]
  · refine (Peer.meet_of_ne fun hsame => hid ?_).symm
    rw [horderly.eq_of_key hother hmember (hsame.symm.trans hkey)]

end Pool

namespace World

variable {world : World} {link : Link}

/-- A link that is offered does to a pool what its coming does. -/
theorem addPeer_welcome (horderly : world.pool.Orderly)
    (hfree : world.pool.atEndpoint? link.endpoint = none) :
    gain (world.addPeer link).1 = (world.pool.newcomers [link]).length ∧
      ∃ store, (world.addPeer link).2.pool = { world.pool.welcome [link] with store } := by
  by_cases hown : link.key = world.pool.localKey
  · have hknown : link.key ∈ world.pool.keys := by rw [hown]; exact List.mem_cons_self
    have huseless : ∀ peer ∈ world.pool.members, link.key = peer.identity.publicKey →
        peer.adopt link.line = none := by
      intro peer hmember hsame
      exact absurd (hsame.symm.trans hown) (horderly.foreign _ (Pool.mem_roster hmember))
    rw [addPeer_own hown, Pool.welcome_of_mem hknown, Pool.map_meet_of_useless huseless,
      Pool.newcomers_of_mem hknown]
    exact ⟨rfl, _, rfl⟩
  · cases hkey : world.pool.withKey? link.key with
    | some peer =>
        obtain ⟨hmember, hsame⟩ := Pool.mem_of_withKey? hkey
        have hknown : link.key ∈ world.pool.keys := by
          rw [← hsame]
          exact List.mem_cons_of_mem _ (List.mem_map_of_mem hmember)
        rw [Pool.newcomers_of_mem hknown]
        cases hadopt : peer.adopt link.line with
        | some adopted =>
            rw [addPeer_resumed hown hkey hadopt, ← horderly.change_adopted hmember hsame.symm hadopt]
            exact ⟨rfl, _, rfl⟩
        | none =>
            have huseless : ∀ other ∈ world.pool.members, link.key = other.identity.publicKey →
                other.adopt link.line = none := by
              intro other hother halike
              rwa [horderly.eq_of_key hother hmember (halike.symm.trans hsame.symm)]
            rw [addPeer_refused hown hkey hadopt, Pool.welcome_of_mem hknown,
              Pool.map_meet_of_useless huseless]
            exact ⟨rfl, _, rfl⟩
    | none =>
        have hnew : ∀ peer ∈ world.pool.members, peer.identity.publicKey ≠ link.key :=
          Pool.key_ne_of_withKey? hkey
        have hunknown : link.key ∉ world.pool.keys := by
          simpa [Pool.keys, hown] using hnew
        have huseless : ∀ peer ∈ world.pool.members, link.key = peer.identity.publicKey →
            peer.adopt link.line = none := by
          intro peer hmember hsame
          exact absurd hsame.symm (hnew peer hmember)
        rw [addPeer_added hown hkey hfree, Pool.welcome, Pool.newcomers_of_notMem hunknown,
          Pool.map_meet_of_useless huseless]
        exact ⟨rfl, _, rfl⟩

end World

/-! ## What is dialed -/

/-- An endpoint that was heard of, and how its dial ended unless it was passed over. -/
structure Visit where
  endpoint : Endpoint
  outcome : Option (Except NetError Link)

namespace Visit

/-- The endpoints that were dialed. -/
def dialed (visits : List Visit) : List Endpoint :=
  (visits.filter (·.outcome.isSome)).map (·.endpoint)

/-- The links that came of the dials. -/
def links (visits : List Visit) : List Link :=
  visits.filterMap fun visit => visit.outcome.bind Except.toOption

theorem dialed_append (visits more : List Visit) :
    dialed (visits ++ more) = dialed visits ++ dialed more := by
  simp [dialed]

theorem links_append (visits more : List Visit) :
    links (visits ++ more) = links visits ++ links more :=
  List.filterMap_append

end Visit

namespace Pool

/-- A pool that has worked through what it heard of, apart from what it keeps in its store. -/
def heard (pool : Pool) (visits : List Visit) : Pool :=
  { pool.welcome (Visit.links visits) with book := pool.book.learned (Visit.dialed visits) }

end Pool

/-- What was heard of is worked through from the front: the own endpoint and those that a member
has by then are passed over, and all others are dialed. -/
def Outcomes.Course (outcomes : Outcomes) (history : List Endpoint) (pool : Pool)
    (visits : List Visit) : Prop :=
  ∀ before visit behind, visits = before ++ visit :: behind →
    visit.outcome =
      if pool.isSelf visit.endpoint ∨ visit.endpoint ∈ (pool.heard before).endpoints then none
      else some (outcomes (history ++ Visit.dialed before) visit.endpoint)

namespace Pool

variable {pool : Pool}

@[simp] theorem heard_nil (pool : Pool) : pool.heard [] = pool := by
  simp [heard, Visit.links, Visit.dialed]

theorem heard_append (pool : Pool) (visits more : List Visit) :
    pool.heard (visits ++ more) = (pool.heard visits).heard more := by
  rw [heard, Visit.links_append, Visit.dialed_append, welcome_append, AddressBook.learned_append]
  rfl

end Pool

namespace Outcomes

variable {outcomes : Outcomes} {history : List Endpoint} {pool : Pool}

theorem course_nil (outcomes : Outcomes) (history : List Endpoint) (pool : Pool) :
    outcomes.Course history pool [] := by
  intro before visit behind hsplit
  simp at hsplit

/-- To work through a list is to work through its first endpoint and then through the others. -/
theorem course_cons {visit : Visit} {rest : List Visit}
    (hfirst : visit.outcome =
      if pool.isSelf visit.endpoint ∨ visit.endpoint ∈ pool.endpoints then none
      else some (outcomes history visit.endpoint))
    (hrest : outcomes.Course (history ++ Visit.dialed [visit]) (pool.heard [visit]) rest) :
    outcomes.Course history pool (visit :: rest) := by
  intro before later behind hsplit
  cases before with
  | nil =>
      obtain ⟨rfl, -⟩ := List.cons.inj hsplit
      simpa [Visit.dialed] using hfirst
  | cons first before =>
      obtain ⟨rfl, hbehind⟩ := List.cons.inj hsplit
      have hlater := hrest before later behind hbehind
      rw [← Pool.heard_append, List.append_assoc, ← Visit.dialed_append] at hlater
      exact hlater

end Outcomes

namespace World

variable {world : World} {dial : Dial} {outcomes : Outcomes} {e : Endpoint}

/-- What comes of a dial comes to the pool. -/
theorem connect_welcome (hdial : dial.Follows outcomes) (hstraight : outcomes.Straight)
    (horderly : world.pool.Orderly) (hfree : world.pool.atEndpoint? e = none) :
    ∃ links, links = Visit.links [⟨e, some (outcomes world.net.dialed e)⟩] ∧
      gain (world.connect dial e).1 = (world.pool.newcomers links).length ∧
      (world.connect dial e).2.pool.Orderly ∧
      (world.connect dial e).2.net.dialed = world.net.dialed ++ [e] ∧
      ∃ store, (world.connect dial e).2.pool = { world.pool.welcome links with store } := by
  obtain ⟨met, hpool, hdialed, hmissed, hoffered⟩ := exists_connect hdial hfree
  cases houtcome : outcomes world.net.dialed e with
  | error cause =>
      refine ⟨[], rfl, ?_⟩
      rw [hmissed cause houtcome, Pool.newcomers_nil, Pool.welcome_nil, hpool]
      exact ⟨rfl, horderly, hdialed, _, rfl⟩
  | ok link =>
      rw [← hpool] at horderly hfree
      rw [← hstraight _ e link houtcome] at hfree
      obtain ⟨hgain, hwelcome⟩ := addPeer_welcome horderly hfree
      refine ⟨[link], rfl, ?_⟩
      rw [hoffered link houtcome, ← hpool]
      exact ⟨hgain, orderly_addPeer horderly link, (dialed_addPeer met link).trans hdialed, hwelcome⟩

/-- An endpoint that is nobody's is learned and dialed, and what comes of it comes to the pool. -/
theorem connect_heard (hdial : dial.Follows outcomes) (hstraight : outcomes.Straight)
    (horderly : world.pool.Orderly) (hfree : world.pool.atEndpoint? e = none)
    {visit : Visit} (hvisit : visit = ⟨e, some (outcomes world.net.dialed e)⟩)
    {noted : World} (hnoted : noted = world.withPool fun pool =>
      { pool with book := pool.book.learn e }) :
    gain (noted.connect dial e).1 = (world.pool.newcomers (Visit.links [visit])).length ∧
      (noted.connect dial e).2.pool.Orderly ∧
      (noted.connect dial e).2.net.dialed = world.net.dialed ++ Visit.dialed [visit] ∧
      ∃ store, (noted.connect dial e).2.pool = { world.pool.heard [visit] with store } := by
  have hsame : noted.pool.Orderly := by
    rw [hnoted]
    exact horderly.sublist (List.Sublist.refl _) rfl rfl
  have hstill : noted.pool.atEndpoint? e = none := by
    rw [hnoted]
    exact hfree
  have hdialed : Visit.dialed [visit] = [e] := by simp [hvisit, Visit.dialed]
  have hlearned : world.pool.book.learned [e] = world.pool.book.learn e := by
    rw [AddressBook.learned_cons, AddressBook.learned_nil]
  obtain ⟨links, hlinks, hgain, hkept, hhistory, store, hpool⟩ :=
    connect_welcome hdial hstraight hsame hstill
  have hvisited : Visit.links [visit] = links := by
    rw [hlinks, hvisit, hnoted]
    rfl
  rw [Pool.heard, hvisited, hdialed, hlearned]
  subst hnoted
  exact ⟨hgain, hkept, hhistory, store, hpool⟩

/-- What a dial has come to is counted with what comes of the others. -/
theorem joinAll_dialed (dial : Dial)
    (hnew : ¬ (world.pool.isSelf e || (world.pool.atEndpoint? e).isSome) = true)
    {noted : World} (hnoted : noted = world.withPool fun pool =>
      { pool with book := pool.book.learn e }) (rest : List Endpoint) :
    world.joinAll dial (e :: rest) =
      (gain (noted.connect dial e).1 + ((noted.connect dial e).2.joinAll dial rest).1,
        ((noted.connect dial e).2.joinAll dial rest).2) := by
  subst hnoted
  rw [joinAll, if_neg hnew]
  dsimp only
  rcases (World.connect dial _ e).1 with cause | id | id | id
  · simp [gain]
  · simp [gain, Nat.add_comm]
  · simp [gain]
  · simp [gain]

/-- All that a pool hears of is worked through, and it gains those that come. -/
theorem exists_joinAll (hdial : dial.Follows outcomes) (hstraight : outcomes.Straight)
    (horderly : world.pool.Orderly) (endpoints : List Endpoint) :
    ∃ visits store after, visits.map (·.endpoint) = endpoints ∧
      outcomes.Course world.net.dialed world.pool visits ∧
      world.joinAll dial endpoints =
        ((world.pool.newcomers (Visit.links visits)).length, after) ∧
      after.net.dialed = world.net.dialed ++ Visit.dialed visits ∧
      after.pool = { world.pool.heard visits with store } := by
  induction endpoints generalizing world with
  | nil =>
      refine ⟨[], world.pool.store, world, rfl, outcomes.course_nil _ _, ?_, ?_, ?_⟩
      · simp [joinAll, Visit.links]
      · simp [Visit.dialed]
      · simp
  | cons e rest ih =>
      have hfound : (world.pool.isSelf e || (world.pool.atEndpoint? e).isSome) = true ↔
          world.pool.isSelf e ∨ e ∈ world.pool.endpoints := by
        simp [Pool.atEndpoint?, Pool.endpoints]
      by_cases hknown : world.pool.isSelf e ∨ e ∈ world.pool.endpoints
      · obtain ⟨visits, store, after, hvisits, hcourse, hjoined, hdialed, hpool⟩ := ih horderly
        have hpassed : world.pool.heard [⟨e, none⟩] = world.pool := by
          simp [Pool.heard, Visit.links, Visit.dialed]
        rw [joinAll, if_pos (hfound.2 hknown)]
        refine ⟨⟨e, none⟩ :: visits, store, after, ?_, ?_, hjoined, hdialed, hpool⟩
        · rw [List.map_cons, hvisits]
        · refine Outcomes.course_cons (if_pos hknown).symm ?_
          rw [hpassed]
          simpa [Visit.dialed] using hcourse
      · have hfree : world.pool.atEndpoint? e = none := by
          simpa [Pool.atEndpoint?, Pool.endpoints] using (not_or.1 hknown).2
        obtain ⟨visit, hvisit⟩ : ∃ visit : Visit,
            visit = ⟨e, some (outcomes world.net.dialed e)⟩ := ⟨_, rfl⟩
        obtain ⟨noted, hnoted⟩ : ∃ noted : World, noted = world.withPool fun pool =>
            { pool with book := pool.book.learn e } := ⟨_, rfl⟩
        obtain ⟨hgain, hkept, hhistory, met, hmet⟩ :=
          connect_heard hdial hstraight horderly hfree hvisit hnoted
        obtain ⟨visits, store, after, hvisits, hcourse, hjoined, hdialed, hpool⟩ := ih hkept
        rw [hmet] at hcourse hjoined hpool
        rw [hhistory] at hcourse hdialed
        refine ⟨visit :: visits, store, after, ?_, ?_, ?_, ?_, ?_⟩
        · rw [List.map_cons, hvisits, hvisit]
        · refine Outcomes.course_cons ?_ hcourse
          rw [hvisit]
          exact (if_neg hknown).symm
        · rw [joinAll_dialed dial (mt hfound.1 hknown) hnoted, hgain, hjoined]
          show _ = ((world.pool.newcomers (Visit.links ([visit] ++ visits))).length, after)
          rw [Visit.links_append, Pool.newcomers_append, List.length_append]
          rfl
        · rw [hdialed, List.append_assoc, ← Visit.dialed_append]
          rfl
        · rw [hpool]
          show _ = { world.pool.heard ([visit] ++ visits) with store }
          rw [Pool.heard_append]
          rfl

/-- **What comes of a list of peers that was heard of.**  If an upkeep or another list is under way,
nothing.  Otherwise the list is worked through from the front: the own endpoint and those that a
member has by then are passed over, and all others are dialed and, as far as there is room, learned.
The members stay, and one that waits for a line is resumed on the first that was opened to its node.
Behind them join the first nodes of each key that was not known, and so many are counted. -/
theorem dialed_and_welcomed (hdial : dial.Follows outcomes) (hstraight : outcomes.Straight)
    (horderly : world.pool.Orderly) (endpoints : List Endpoint) :
    (world.pool.maintaining = true ∨ world.pool.receiving = true →
      world.receivePeers dial endpoints = (0, world)) ∧
    (world.pool.maintaining = false → world.pool.receiving = false →
      ∃ visits joined store after, visits.map (·.endpoint) = endpoints ∧
        outcomes.Course world.net.dialed world.pool visits ∧
        joined = world.pool.newcomers (Visit.links visits) ∧
        world.receivePeers dial endpoints = (joined.length, after) ∧
        after.net.dialed = world.net.dialed ++ Visit.dialed visits ∧
        after.pool = { world.pool.heard visits with store } ∧
        after.pool.roster = world.pool.roster ++ joined.map Peer.card ∧
        after.pool.members.length = world.pool.members.length + joined.length ∧
        after.pool.receiving = false) := by
  constructor
  · rintro (hbusy | hbusy) <;> rw [receivePeers, hbusy] <;> simp
  · intro hmaintaining hreceiving
    have hclaimed : (world.withPool ({ · with receiving := true })).pool.Orderly :=
      horderly.sublist (List.Sublist.refl _) rfl rfl
    obtain ⟨visits, store, after, hvisits, hcourse, hjoined, hdialed, hpool⟩ :=
      exists_joinAll hdial hstraight hclaimed endpoints
    have hidle : ({ after.pool with receiving := false } : Pool) =
        { world.pool.heard visits with store } := by
      rw [hpool, ← hreceiving]
      rfl
    have hstay : (world.pool.heard visits).roster =
        world.pool.roster ++ (world.pool.newcomers (Visit.links visits)).map Peer.card := by
      simp only [Pool.heard, Pool.welcome, Pool.roster, List.map_append, List.map_map]
      congr 1
      apply List.map_congr_left
      intro peer _
      exact peer.card_foldl_meet (Visit.links visits)
    refine ⟨visits, _, store, after.withPool ({ · with receiving := false }), hvisits, hcourse, rfl,
      ?_, hdialed, hidle, ?_, ?_, rfl⟩
    · rw [receivePeers, hmaintaining, hreceiving]
      simp only [Bool.or_self, Bool.false_eq_true, if_false, hjoined]
      rfl
    · show ({ after.pool with receiving := false } : Pool).roster = _
      rw [hidle]
      exact hstay
    · show ({ after.pool with receiving := false } : Pool).members.length = _
      rw [hidle]
      simp [Pool.heard, Pool.welcome]

end World

/-! ## A list with all kinds of endpoints -/

/-- A link to a node that has answered at an endpoint. -/
def nodeAt (key : UInt8) (e : Endpoint) : Link :=
  ⟨e.port.toNat, ⟨[key], e.port, 1⟩, e, .outbound⟩

/-- A pool that has taken in two nodes. -/
def acquainted : Pool :=
  ((Pool.empty { selfEndpoint := some ⟨"h", 0⟩, bookCapacity := 4 } [0] none).enroll
    (nodeAt 1 ⟨"h", 1⟩) 1).enroll (nodeAt 2 ⟨"h", 2⟩) 1

/-- The second of them is waiting for a line, and there is little room in the book. -/
def listening : Pool :=
  { acquainted.change 2 ({ · with state := .reconnecting, session := none }) with
    book := { capacity := 4, entries := [⟨"h", 3⟩] } }

theorem orderly_listening : listening.Orderly := by
  have hacquainted : acquainted.Orderly :=
    ((Pool.orderly_empty _ _ _).enroll (by decide) rfl rfl 1).enroll (by decide) rfl rfl 1
  exact hacquainted.sublist (List.Sublist.refl _) rfl rfl

/-- The own node answers at one port, the members at two others, and a new one at the last two. -/
def rumours : Outcomes := fun _ e =>
  match e.port.toNat with
  | 3 => .ok (nodeAt 0 e)
  | 4 => .ok (nodeAt 1 e)
  | 5 => .ok (nodeAt 2 e)
  | 6 => .ok (nodeAt 9 e)
  | 7 => .ok (nodeAt 9 e)
  | _ => .error (.io "refused")

theorem straight_rumours : rumours.Straight := by
  intro history e link hlink
  unfold rumours at hlink
  split at hlink
  all_goals first
    | exact (Except.ok.inj hlink) ▸ rfl
    | exact absurd hlink nofun

/-- One peer is gained, the one that waited is resumed, and the book is full before the end. -/
theorem World.dialed_and_welcomed_listening :
    ∃ after, World.receivePeers rumours.dial { pool := listening }
        ([0, 1, 8, 3, 8, 4, 5, 6, 6, 7].map (⟨"h", ·⟩)) = (1, after) ∧
      after.net.dialed = [8, 3, 8, 4, 5, 6, 7].map (⟨"h", ·⟩) ∧
      after.pool.book.entries = [3, 8, 4, 5].map (⟨"h", ·⟩) ∧
      after.pool.members.map (fun peer => (peer.id, peer.state, peer.session.map (·.line))) =
        [(1, .connected, some 1), (2, .connected, some 5), (3, .connected, some 6)] ∧
      after.pool.receiving = false := by
  obtain ⟨-, hruns⟩ := @World.dialed_and_welcomed { pool := listening } _ _ rumours.follows_dial
    straight_rumours orderly_listening ([0, 1, 8, 3, 8, 4, 5, 6, 6, 7].map (⟨"h", ·⟩))
  obtain ⟨visits, joined, store, after, -, -, -, hdone, -, -, -, -, hidle⟩ := hruns rfl rfl
  have hcount : 1 = joined.length := congrArg Prod.fst hdone
  refine ⟨after, ?_, ?_, ?_, ?_, hidle⟩
  · rw [hdone, hcount]
  · exact (congrArg (·.2.net.dialed) hdone).symm
  · exact (congrArg (·.2.pool.book.entries) hdone).symm
  · exact (congrArg (·.2.pool.members.map fun peer =>
      (peer.id, peer.state, peer.session.map (·.line))) hdone).symm

end Overlay
