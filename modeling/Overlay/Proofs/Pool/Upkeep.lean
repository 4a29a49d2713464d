import Overlay.Proofs.Pool.Identities

/-!
# What an upkeep leaves

An upkeep with nothing in between lets the preferred boot node go, and then the
oldest members until there are as many as are wanted.  The latter leaves as
many as are wanted, so only the boot node can be the last one to go.
-/

namespace Overlay

open Wire

/-- The preferred boot node is the only member. -/
def Pool.OnlyBootNode (pool : Pool) : Prop :=
  ∃ peer, pool.members = [peer] ∧ pool.bootNode = some peer.endpoint

namespace World

variable {world after : World} {dial : Dial}

theorem members_takePeer (id : Nat) (goodbye forget : Bool) :
    (world.takePeer id goodbye forget).2.pool.members =
      world.pool.members.eraseP (·.id == id) := by
  obtain ⟨store, told, hpool⟩ := world.exists_takePeer id goodbye forget
  rw [hpool]

/-- To remove the first members leaves the others. -/
theorem members_removeAll {front rest : List Peer} (hmembers : world.pool.members = front ++ rest) :
    (world.removeAll (front.map (·.id))).2.pool.members = rest := by
  induction front generalizing world with
  | nil => exact hmembers
  | cons peer front ih =>
      rw [List.map_cons, removeAll]
      refine ih ?_
      show (world.takePeer peer.id true true).2.pool.members = front ++ rest
      rw [members_takePeer, hmembers, List.cons_append, List.eraseP_cons_of_pos]
      exact beq_self_eq_true peer.id

/-- No duplicates are removed from an orderly pool. -/
theorem removeDuplicates_eq (horderly : world.pool.Orderly) :
    world.removeDuplicates = (0, world) := by
  rw [removeDuplicates, horderly.duplicates_eq_nil]
  rfl

/-- Whoever is the only member is the last to go. -/
theorem members_takePeer_eq_nil_iff {peer : Peer} (hmember : peer ∈ world.pool.members)
    (goodbye forget : Bool) :
    (world.takePeer peer.id goodbye forget).2.pool.members = [] ↔ world.pool.members = [peer] := by
  rw [members_takePeer]
  constructor
  · intro hnil
    have hlength : (world.pool.members.eraseP (·.id == peer.id)).length =
        world.pool.members.length - 1 :=
      List.length_eraseP_of_mem hmember (beq_self_eq_true peer.id)
    have hpos := List.length_pos_of_mem hmember
    rw [hnil, List.length_nil] at hlength
    have hone : world.pool.members.length = 1 := by omega
    obtain ⟨only, honly⟩ := List.length_eq_one_iff.1 hone
    rw [honly, List.mem_singleton] at hmember
    rw [honly, hmember]
  · intro honly
    simp [honly]

/-- The preferred boot node is the last member to go if it is the only one. -/
theorem members_releaseBootNode_eq_nil_iff (hmembers : world.pool.members ≠ []) :
    world.releaseBootNode.2.pool.members = [] ↔ world.pool.OnlyBootNode := by
  rw [releaseBootNode, Pool.OnlyBootNode]
  cases hboot : world.pool.bootNode with
  | none => simp [hmembers]
  | some e =>
      show (world.removeEndpoint e).2.pool.members = [] ↔ _
      rw [removeEndpoint]
      cases hfound : world.pool.atEndpoint? e with
      | none =>
          refine ⟨fun hnil => absurd hnil hmembers, ?_⟩
          rintro ⟨peer, honly, hsame⟩
          have hmember : peer ∈ world.pool.members := by
            rw [honly]
            exact List.mem_cons_self
          have hother := Pool.endpoint_ne_of_atEndpoint? hfound peer hmember
          exact absurd (Option.some.inj hsame).symm hother
      | some peer =>
          obtain ⟨hmember, rfl⟩ := Pool.mem_of_atEndpoint? hfound
          refine (members_takePeer_eq_nil_iff hmember true true).trans ?_
          constructor
          · exact fun honly => ⟨peer, honly, rfl⟩
          · rintro ⟨only, honly, -⟩
            rw [honly, List.mem_singleton] at hmember
            rw [honly, hmember]

/-- To let the boot node go changes nothing else of the pool but the store and what was told. -/
theorem exists_releaseBootNode (world : World) : ∃ members store told,
    world.releaseBootNode.2.pool = { world.pool with members, store, told } ∧
      members.Sublist world.pool.members := by
  rw [releaseBootNode]
  cases world.pool.bootNode with
  | none => exact ⟨_, _, _, rfl, List.Sublist.refl _⟩
  | some e =>
      dsimp only
      rw [removeEndpoint]
      cases world.pool.atEndpoint? e with
      | none => exact ⟨_, _, _, rfl, List.Sublist.refl _⟩
      | some peer =>
          obtain ⟨store, told, hpool⟩ := world.exists_takePeer peer.id true true
          exact ⟨_, store, told, hpool, List.eraseP_sublist ..⟩

theorem orderly_takePeer (horderly : world.pool.Orderly) (id : Nat) (goodbye forget : Bool) :
    (world.takePeer id goodbye forget).2.pool.Orderly := by
  obtain ⟨store, told, hpool⟩ := world.exists_takePeer id goodbye forget
  rw [hpool]
  exact horderly.sublist ((List.eraseP_sublist ..).map _) rfl rfl

theorem orderly_removeAll (horderly : world.pool.Orderly) (ids : List Nat) :
    (world.removeAll ids).2.pool.Orderly := by
  induction ids generalizing world with
  | nil => exact horderly
  | cons id rest ih => exact ih (orderly_takePeer horderly id true true)

/-- Asking for more peers leaves the members, and letting the oldest go leaves as many as are
wanted. -/
theorem balance_kept (horderly : world.pool.Orderly) (report : UpkeepReport) :
    (world.balance report).2.pool.Orderly ∧
      (world.balance report).2.pool.members.length =
        min world.pool.members.length world.pool.policy.target := by
  rw [balance]
  dsimp only
  split_ifs with hfew
  · have hidle : (world.withPool ({ · with maintaining := false })).pool.Orderly :=
      horderly.sublist (List.Sublist.refl _) rfl rfl
    refine ⟨(spares_broadcastAndWait hidle _).orderly hidle, ?_⟩
    have hgists := congrArg List.length (gists_broadcastAndWait hidle
      (PeerRequest.ofCount (world.pool.policy.target - world.pool.members.length)).toMessage)
    rw [Pool.gists, Pool.gists, List.length_map, List.length_map] at hgists
    rw [Nat.min_eq_left (Nat.le_of_lt hfew)]
    exact hgists
  · refine ⟨orderly_removeAll horderly _, ?_⟩
    have hsplit := (List.take_append_drop
      (world.pool.members.length - world.pool.policy.target) world.pool.members).symm
    rw [members_removeAll hsplit, List.length_drop]
    omega

/-- The first part of an upkeep of a pool with members lets the boot node go at most. -/
theorem anchor_kept (horderly : world.pool.Orderly) (hmembers : world.pool.members ≠ [])
    (report : UpkeepReport) :
    (world.anchor dial report).2.pool.Orderly ∧
      (world.anchor dial report).2.pool.policy = world.pool.policy ∧
      ((world.anchor dial report).2.pool.members = [] ↔
        world.pool.policy.target / 2 < world.pool.members.length ∧ world.pool.OnlyBootNode) := by
  rw [anchor, if_neg hmembers]
  split_ifs with hmany
  · obtain ⟨members, store, told, hpool, hsublist⟩ := world.exists_releaseBootNode
    refine ⟨?_, ?_, ?_⟩
    · show world.releaseBootNode.2.pool.Orderly
      rw [hpool]
      exact horderly.sublist (hsublist.map _) rfl rfl
    · show world.releaseBootNode.2.pool.policy = world.pool.policy
      rw [hpool]
    · show world.releaseBootNode.2.pool.members = [] ↔ _
      rw [members_releaseBootNode_eq_nil_iff hmembers]
      exact (and_iff_right hmany).symm
  · exact ⟨horderly, rfl, by simp [hmany, hmembers]⟩

/-- An upkeep takes place if no other is under way and no list of peers is worked through. -/
theorem exists_maintain (hreceiving : world.pool.receiving = false)
    (hmaintaining : world.pool.maintaining = false) (dial : Dial) :
    ∃ report after, world.maintain dial = (some report, after) := by
  rw [maintain, hreceiving, hmaintaining]
  exact ⟨_, _, rfl⟩

/-- An upkeep with nothing in between empties a pool exactly if a single member is wanted and the
only one is the preferred boot node. -/
theorem members_maintain_eq_nil_iff (horderly : world.pool.Orderly)
    (hmembers : world.pool.members ≠ []) (htarget : 1 ≤ world.pool.policy.target)
    {report : UpkeepReport} (hdone : world.maintain dial = (some report, after)) :
    after.pool.members = [] ↔ world.pool.policy.target = 1 ∧ world.pool.OnlyBootNode := by
  rw [maintain] at hdone
  split at hdone
  · cases hdone
  · have hclaimed : (world.withPool ({ · with maintaining := true })).pool.Orderly :=
      horderly.sublist (List.Sublist.refl _) rfl rfl
    have hkept := @anchor_kept _ dial hclaimed hmembers {}
    generalize anchor dial (world.withPool ({ · with maintaining := true })) {} = anchored
      at hdone hkept
    obtain ⟨hanchored, hpolicy, hleft⟩ := hkept
    obtain ⟨hbalanced, hlength⟩ := balance_kept hanchored anchored.1
    have hafter : after.pool.members.length =
        min anchored.2.pool.members.length world.pool.policy.target := by
      obtain rfl : _ = after := congrArg Prod.snd hdone
      show (anchored.2.balance anchored.1).2.removeDuplicates.2.pool.members.length = _
      rw [removeDuplicates_eq hbalanced, hlength, hpolicy]
      rfl
    have hnil : anchored.2.pool.members = [] ↔
        world.pool.policy.target / 2 < world.pool.members.length ∧ world.pool.OnlyBootNode := hleft
    rw [← List.length_eq_zero_iff] at hnil ⊢
    have hzero : after.pool.members.length = 0 ↔ anchored.2.pool.members.length = 0 := by omega
    rw [hzero, hnil]
    refine and_congr_left ?_
    rintro ⟨peer, honly, -⟩
    rw [honly, List.length_singleton]
    omega

end World

namespace ConcurrentPool

variable {s : ConcurrentPool}

/-- **What an upkeep leaves.**  An upkeep of a pool that has members and wants some, with nothing in
between, leaves nobody exactly if a single member is wanted and the only one is the preferred boot
node. -/
theorem upkeep_isolates_iff {policy : PoolPolicy} {localKey : Bytes} {store : Option PeerStore}
    {net : Net} (hrun : Run (start policy localKey store net) s)
    (htarget : 1 ≤ s.world.pool.policy.target) (hmembers : s.world.pool.members ≠ []) {dial : Dial}
    {report : UpkeepReport} {after : World}
    (hdone : s.world.maintain dial = (some report, after)) :
    after.pool.members = [] ↔
      s.world.pool.policy.target = 1 ∧ s.world.pool.OnlyBootNode :=
  World.members_maintain_eq_nil_iff (hrun.sound (sound_start policy localKey store net)).orderly
    hmembers htarget hdone

/-- A dial that nobody answers. -/
def nobody : Dial :=
  fun _ world => (.error (.io "refused"), world)

/-- A node that wants one peer, and prefers to start from another. -/
def solitary : PoolPolicy where
  target := 1
  bootnodes := [Life.inboundLink.endpoint]

/-- A link to a node of its own for each line. -/
def linkOn (line : UInt16) (direction : Direction) : Link where
  line := line.toNat
  identity := ⟨[1 + line.toUInt8], 7000 + line, protocolVersion⟩
  endpoint := ⟨"b", 7000 + line⟩
  direction

/-- A node dials in and is added, with nothing in between. -/
theorem Run.join {first : ConcurrentPool} (hrun : Run first s) (hcalls : s.calls = []) (link : Link)
    (hfresh : ∀ other ∈ s.links, other.line ≠ link.line) :
    Run first { s with
      world := (s.world.addPeer link).2
      stage := posted s.stage link (s.world.addPeer link).1
      links := link :: s.links
      reports := .admission (s.world.addPeer link).1 :: s.reports } := by
  obtain ⟨world, stage, links, calls, reports⟩ := s
  obtain rfl : calls = [] := hcalls
  exact hrun
    |>.step (.arrive link hfresh)
    |>.step (.ask (.add link) fun _ hadd => by cases hadd; exact List.mem_cons_self)
    |>.step (@Step.offer _ [] [] _ _ rfl)
    |>.step (@Step.finish _ [] [] _ rfl)

/-- An upkeep that lets the preferred boot node go, and then the older one of the two others that
dialed in, since one is wanted. -/
theorem upkeep_isolates_iff_three :
    ∃ s report after, Run (start solitary [0] none {}) s ∧ s.world.pool.policy.target = 1 ∧
      s.world.pool.members.map (·.endpoint) = [⟨"b", 7000⟩, ⟨"b", 7001⟩, ⟨"b", 7002⟩] ∧
      s.world.maintain nobody = (some report, after) ∧ report.releasedBootNode = true ∧
      report.removed = [2] ∧ after.pool.members ≠ [] := by
  have hjoined := (@Run.refl (start solitary [0] none {}))
    |>.join rfl (linkOn 0 .outbound) nofun
    |>.join rfl (linkOn 1 .inbound) (by decide)
    |>.join rfl (linkOn 2 .inbound) (by decide)
  obtain ⟨joined, report, after, hrun, htarget, hendpoints, hdone, hreleased, hremoved⟩ :
      ∃ (joined : ConcurrentPool) (report : UpkeepReport) (after : World),
        Run (start solitary [0] none {}) joined ∧ joined.world.pool.policy.target = 1 ∧
          joined.world.pool.members.map (·.endpoint) = [⟨"b", 7000⟩, ⟨"b", 7001⟩, ⟨"b", 7002⟩] ∧
          joined.world.maintain nobody = (some report, after) ∧
          report.releasedBootNode = true ∧ report.removed = [2] :=
    ⟨_, _, _, hjoined, rfl, rfl, rfl, rfl, rfl⟩
  refine ⟨joined, report, after, hrun, htarget, hendpoints, hdone, hreleased, hremoved, ?_⟩
  have hmembers : joined.world.pool.members ≠ [] := by
    rintro hnone
    simp [hnone] at hendpoints
  rintro hnil
  obtain ⟨-, peer, honly, -⟩ := (upkeep_isolates_iff hrun (by omega) hmembers hdone).1 hnil
  simp [honly] at hendpoints

/-- An upkeep that lets the only member go, which is the preferred boot node. -/
theorem upkeep_isolates_solitary :
    ∃ s report after, Run (start solitary [0] none {}) s ∧ 1 ≤ s.world.pool.policy.target ∧
      s.world.pool.members ≠ [] ∧ s.world.maintain nobody = (some report, after) ∧
      after.pool.members = [] := by
  have hjoined := (@Run.refl (start solitary [0] none {})).join rfl (linkOn 0 .outbound) nofun
  obtain ⟨joined, hrun, htarget, honly, hreceiving, hmaintaining⟩ : ∃ joined,
      Run (start solitary [0] none {}) joined ∧ joined.world.pool.policy.target = 1 ∧
        joined.world.pool.OnlyBootNode ∧ joined.world.pool.receiving = false ∧
        joined.world.pool.maintaining = false :=
    ⟨_, hjoined, rfl, ⟨_, rfl, rfl⟩, rfl, rfl⟩
  have hmembers : joined.world.pool.members ≠ [] := by
    obtain ⟨peer, hpeer, -⟩ := honly
    rw [hpeer]
    exact nofun
  have horderly := (hrun.sound (sound_start solitary [0] none {})).orderly
  obtain ⟨report, after, hdone⟩ := World.exists_maintain hreceiving hmaintaining nobody
  have hnil := World.members_maintain_eq_nil_iff horderly hmembers (by omega) hdone
  exact ⟨joined, report, after, hrun, by omega, hmembers, hdone, hnil.2 ⟨htarget, honly⟩⟩

end ConcurrentPool

end Overlay
