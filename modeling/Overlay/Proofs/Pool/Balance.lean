import Overlay.Proofs.Payload.Formats
import Overlay.Proofs.Pool.Bootstrap
import Overlay.Proofs.Pool.Upkeep

/-!
# What one upkeep does

An upkeep with nothing in between finds a first peer for a pool without any, or
lets the preferred boot node go if there are more members than half of those
that are wanted.  Of the members that it has then, the oldest go until there
are as many as are wanted; if there are fewer, they are asked for the others.

The pool is orderly, as every pool is that has come about (`ConcurrentPool.Sound`).
-/

namespace Overlay

open Wire

namespace Pool

variable {pool : Pool}

/-- To take out a member is to keep those at other endpoints. -/
theorem Orderly.eraseP_eq_filter (horderly : pool.Orderly) {peer : Peer}
    (hmember : peer ∈ pool.members) :
    pool.members.eraseP (·.id == peer.id) =
      pool.members.filter (fun other => some peer.endpoint ≠ some other.endpoint) := by
  rw [Pool.eraseP_eq_filter Peer.id (horderly.ids.imp Nat.ne_of_lt)]
  refine List.filter_congr fun other hother => ?_
  have hsame : other.id = peer.id ↔ peer.endpoint = other.endpoint := by
    constructor
    · intro hid
      rw [horderly.eq_of_id hother hmember hid]
    · intro hendpoint
      exact congrArg (·.id) (List.inj_on_of_nodup_map horderly.endpoints hother hmember
        hendpoint.symm)
  simp [hsame]

end Pool

namespace World

variable {world : World} {dial : Dial} {outcomes : Outcomes}

theorem takePeer_fst (id : Nat) (goodbye forget : Bool) :
    (world.takePeer id goodbye forget).1 = (world.pool.member? id).isSome := by
  rw [takePeer]
  cases world.pool.member? id <;> rfl

/-- The first members are all found when they are removed. -/
theorem removeAll_fst {front rest : List Peer} (hmembers : world.pool.members = front ++ rest) :
    (world.removeAll (front.map (·.id))).1 = front.map (·.id) := by
  induction front generalizing world with
  | nil => rfl
  | cons peer front ih =>
      have hfound : (world.removePeer peer.id).1 = true := by
        rw [removePeer, takePeer_fst, Pool.member?, hmembers]
        simp
      have hleft : (world.removePeer peer.id).2.pool.members = front ++ rest := by
        rw [removePeer, members_takePeer, hmembers]
        simp
      rw [List.map_cons, removeAll]
      simp only [hfound, if_true, ih hleft]

theorem exists_removeAll (world : World) (ids : List Nat) : ∃ members store told,
    (world.removeAll ids).2.pool = { world.pool with members, store, told } := by
  induction ids generalizing world with
  | nil => exact ⟨_, _, _, rfl⟩
  | cons id rest ih =>
      obtain ⟨store, told, htaken⟩ := world.exists_takePeer id true true
      obtain ⟨members, store', told', hpool⟩ := ih (world.removePeer id).2
      rw [removeAll]
      refine ⟨members, store', told', hpool.trans ?_⟩
      rw [removePeer, htaken]

/-- The preferred boot node is let go if it is a member, and nobody else. -/
theorem releaseBootNode_effect (horderly : world.pool.Orderly) :
    (world.releaseBootNode.1 = true ↔
      ∃ gist ∈ world.pool.gists, world.pool.bootNode = some gist.endpoint) ∧
    world.releaseBootNode.2.pool.gists =
      world.pool.gists.filter fun gist => world.pool.bootNode ≠ some gist.endpoint := by
  rw [releaseBootNode]
  cases hboot : world.pool.bootNode with
  | none => simp
  | some e =>
      dsimp only
      rw [removeEndpoint]
      cases hfound : world.pool.atEndpoint? e with
      | none =>
          have hother : ∀ gist ∈ world.pool.gists, some e ≠ some gist.endpoint := by
            intro gist hgist
            obtain ⟨peer, hmember, rfl⟩ := List.mem_map.1 hgist
            exact fun hsame => Pool.endpoint_ne_of_atEndpoint? hfound peer hmember
              (Option.some.inj hsame).symm
          constructor
          · simpa using fun gist hgist hsame => hother gist hgist (by rw [hsame])
          · exact (List.filter_eq_self.2 (by simpa using hother)).symm
      | some peer =>
          obtain ⟨hmember, rfl⟩ := Pool.mem_of_atEndpoint? hfound
          dsimp only
          constructor
          · have hpresent : (world.pool.member? peer.id).isSome = true := by
              simpa [Pool.member?] using ⟨peer, hmember, rfl⟩
            rw [removePeer, takePeer_fst, hpresent]
            simpa using ⟨peer.gist, Pool.mem_gists hmember, rfl⟩
          · rw [removePeer, Pool.gists, members_takePeer, horderly.eraseP_eq_filter hmember,
              Pool.gists, List.filter_map]
            rfl

/-! ## The first part -/

/-- What the first part of an upkeep has come to: what it reports, and the world that it leaves to
the second part. -/
structure Anchored (dial : Dial) (world : World) (report : UpkeepReport) (met : World) : Prop where
  /-- A pool without peers has whom bootstrapping has won, which is one at most. -/
  searched : world.pool.members = [] →
    (report.bootstrapped, met) = world.bootstrap dial ∧ met.pool.gists.length ≤ 1
  /-- Any other pool lets the preferred boot node go if it had enough members. -/
  released : world.pool.members ≠ [] →
    met = (if world.pool.policy.target / 2 < world.pool.members.length then
      world.releaseBootNode.2 else world) ∧
    met.pool.gists = if world.pool.policy.target / 2 < world.pool.members.length then
      world.pool.gists.filter fun gist => world.pool.bootNode ≠ some gist.endpoint
    else world.pool.gists
  bootstrapped : report.bootstrapped.isSome = true ↔
    world.pool.members = [] ∧ met.pool.gists ≠ []
  releasedBootNode : report.releasedBootNode = true ↔
    world.pool.policy.target / 2 < world.pool.members.length ∧
      ∃ gist ∈ world.pool.gists, world.pool.bootNode = some gist.endpoint

theorem anchor_nobody (hnobody : world.pool.members = []) (report : UpkeepReport) :
    anchor dial world report =
      ({ report with bootstrapped := (world.bootstrap dial).1 }, (world.bootstrap dial).2) := by
  rw [anchor, if_pos hnobody]

theorem anchor_many (hmembers : world.pool.members ≠ [])
    (hmany : world.pool.policy.target / 2 < world.pool.members.length) (report : UpkeepReport) :
    anchor dial world report =
      ({ report with releasedBootNode := world.releaseBootNode.1 }, world.releaseBootNode.2) := by
  rw [anchor, if_neg hmembers, if_pos hmany]

theorem anchor_few (hmembers : world.pool.members ≠ [])
    (hfew : ¬ world.pool.policy.target / 2 < world.pool.members.length) (report : UpkeepReport) :
    anchor dial world report = (report, world) := by
  rw [anchor, if_neg hmembers, if_neg hfew]

/-- Bootstrapping leaves an orderly pool, with a member if an endpoint comes back. -/
theorem orderly_bootstrap (hdial : dial.Follows outcomes) (hnobody : world.pool.members = []) :
    (world.bootstrap dial).2.pool.Orderly ∧
      (world.bootstrap dial).2.pool.gists.length = (world.bootstrap dial).1.toList.length ∧
      (world.bootstrap dial).2.pool.policy = world.pool.policy ∧
      (world.bootstrap dial).2.pool.receiving = world.pool.receiving := by
  obtain ⟨failed, left, after, -, -, hdone, -, hnone, hfound⟩ :=
    exists_bootstrapFrom hdial hnobody world.pool.candidates
  have hmembers : (world.pool.forsake failed).members = [] := hnobody
  have horderly : (world.pool.forsake failed).Orderly := by
    constructor <;> simp [Pool.roster, hmembers]
  rw [bootstrap, hdone]
  cases left with
  | nil =>
      rw [hnone rfl]
      exact ⟨horderly, by simp [Pool.gists, hmembers], rfl, rfl⟩
  | cons e rest =>
      obtain ⟨link, now, -, hother, hpool⟩ := hfound e rest rfl
      rw [hpool]
      have hjoined : ((world.pool.forsake failed).enroll link now).Orderly := by
        apply horderly.enroll hother
        · simp [Pool.withKey?, hmembers]
        · simp [Pool.atEndpoint?, hmembers]
      refine ⟨hjoined.sublist (List.Sublist.refl _) rfl rfl, ?_, rfl, rfl⟩
      simp [Pool.enroll, Pool.tell, Pool.gists, hmembers]

/-- The first part of an upkeep leaves an orderly pool, and nothing else that matters is changed. -/
theorem anchored_anchor (hdial : dial.Follows outcomes) (horderly : world.pool.Orderly) :
    Anchored dial world (anchor dial world {}).1 (anchor dial world {}).2 ∧
      (anchor dial world {}).2.pool.Orderly ∧
      (anchor dial world {}).2.pool.policy = world.pool.policy ∧
      (anchor dial world {}).2.pool.receiving = world.pool.receiving := by
  by_cases hnobody : world.pool.members = []
  · obtain ⟨hkept, hcount, hpolicy, hreceiving⟩ := orderly_bootstrap hdial hnobody
    rw [anchor_nobody hnobody]
    refine ⟨?_, hkept, hpolicy, hreceiving⟩
    constructor
    case searched =>
      refine fun _ => ⟨rfl, ?_⟩
      dsimp only
      rw [hcount]
      cases (world.bootstrap dial).1 <;> simp
    case released => exact absurd hnobody
    case bootstrapped =>
      rw [← List.length_pos_iff, hcount]
      cases (world.bootstrap dial).1 <;> simp [hnobody]
    case releasedBootNode => simp [Pool.gists, hnobody]
  · by_cases hmany : world.pool.policy.target / 2 < world.pool.members.length
    · obtain ⟨members, store, told, hpool, hsublist⟩ := world.exists_releaseBootNode
      obtain ⟨hreleased, hgists⟩ := releaseBootNode_effect horderly
      rw [anchor_many hnobody hmany]
      refine ⟨?_, ?_, by rw [hpool], by rw [hpool]⟩
      · constructor
        case searched => exact fun hnone => absurd hnone hnobody
        case released => rw [if_pos hmany, if_pos hmany]; exact fun _ => ⟨rfl, hgists⟩
        case bootstrapped => simp [hnobody]
        case releasedBootNode => exact hreleased.trans (and_iff_right hmany).symm
      · rw [hpool]
        exact horderly.sublist (hsublist.map _) rfl rfl
    · rw [anchor_few hnobody hmany]
      refine ⟨?_, horderly, rfl, rfl⟩
      constructor
      case searched => exact fun hnone => absurd hnone hnobody
      case released => rw [if_neg hmany, if_neg hmany]; exact fun _ => ⟨rfl, rfl⟩
      case bootstrapped => simp [hnobody]
      case releasedBootNode => simp [hmany]

/-! ## The second part -/

/-- What the second part of an upkeep has come to, if it began in a world and so many members are
wanted. -/
structure Balanced (met : World) (target : Nat) (report : UpkeepReport) (after : World) :
    Prop where
  /-- The oldest have gone, and the others are who and where they were. -/
  gists : after.pool.gists = met.pool.gists.drop (met.pool.gists.length - target)
  size : after.pool.members.length = min met.pool.gists.length target
  removed : report.removed = (met.pool.gists.take (met.pool.gists.length - target)).map (·.id)
  requested : report.requested = target - met.pool.gists.length
  /-- If some are missing, that is all that happens: all members are asked for them. -/
  asked : met.pool.gists.length < target → ∃ (request : Message) (count : UInt16),
    PeerRequest.ofMessage request = .ok ⟨count⟩ ∧
      count.toNat = min (target - met.pool.gists.length) 65535 ∧
      after = (met.broadcastAndWait request).2

/-- A request asks for as many as are missing, or for as many as can be asked for. -/
theorem exists_request (missing : Nat) : ∃ count : UInt16,
    PeerRequest.ofMessage (PeerRequest.ofCount missing).toMessage = .ok ⟨count⟩ ∧
      count.toNat = min missing 65535 := by
  have hread := (PeerRequest.format_lawful.carried .requestPeers).ofMessage_toMessage
    (PeerRequest.ofCount missing) trivial
  refine ⟨_, hread, ?_⟩
  rw [UInt16.toNat_ofNat']
  omega

/-- The second part of an upkeep does what is said of it, in a world in which no upkeep is under
way. -/
theorem balanced_balance (horderly : world.pool.Orderly) {report : UpkeepReport}
    (hremoved : report.removed = []) (hrequested : report.requested = 0) :
    Balanced (world.withPool ({ · with maintaining := false })) world.pool.policy.target
      (world.balance report).1
      ((world.balance report).2.withPool ({ · with maintaining := false })) := by
  have hcount : (world.withPool ({ · with maintaining := false })).pool.gists.length =
      world.pool.members.length := List.length_map _
  have hsize := (balance_kept horderly report).2
  by_cases hfew : world.pool.members.length < world.pool.policy.target
  · have hidle : (world.withPool ({ · with maintaining := false })).pool.Orderly :=
      horderly.sublist (List.Sublist.refl _) rfl rfl
    constructor
    case size => rw [hcount]; exact hsize
    case gists =>
      rw [hcount, Nat.sub_eq_zero_of_le (Nat.le_of_lt hfew), List.drop_zero, balance]
      simp only [hfew, if_true]
      exact gists_broadcastAndWait hidle _
    case removed =>
      rw [hcount, Nat.sub_eq_zero_of_le (Nat.le_of_lt hfew)]
      simp [balance, hfew, hremoved]
    case requested => rw [hcount]; simp [balance, hfew]
    case asked =>
      intro _
      obtain ⟨count, hread, hnumber⟩ :=
        exists_request (world.pool.policy.target - world.pool.members.length)
      have hover : (world.balance report).2.pool.maintaining = false := by
        rw [maintaining_balance]
        simp [hfew]
      refine ⟨_, count, hread, by rw [hnumber, hcount], ?_⟩
      rw [withPool_maintaining hover]
      simp only [balance, hfew, if_true]
  · have hsplit := (List.take_append_drop
      (world.pool.members.length - world.pool.policy.target) world.pool.members).symm
    constructor
    case size => rw [hcount]; exact hsize
    case gists =>
      simp only [balance, hfew, if_false]
      rw [hcount]
      refine (congrArg (List.map Peer.gist) (members_removeAll hsplit)).trans ?_
      rw [List.map_drop]
      rfl
    case removed =>
      simp only [balance, hfew, if_false]
      rw [removeAll_fst hsplit, hcount]
      show _ = ((world.pool.members.map Peer.gist).take _).map (·.id)
      rw [← List.map_take, List.map_map]
      rfl
    case requested => rw [hcount]; simp [balance, hfew, hrequested]; omega
    case asked => exact fun hless => absurd hless (by rw [hcount]; exact hfew)

theorem receiving_balance (report : UpkeepReport) :
    (world.balance report).2.pool.receiving = world.pool.receiving := by
  rw [balance]
  dsimp only
  split_ifs with hfew
  · obtain ⟨members, tickets, verdicts, hpool⟩ := exists_broadcastAndWait
      (world.withPool ({ · with maintaining := false }))
      (PeerRequest.ofCount (world.pool.policy.target - world.pool.members.length)).toMessage
    rw [hpool]
    rfl
  · obtain ⟨members, store, told, hpool⟩ := world.exists_removeAll ((world.pool.members.take
      (world.pool.members.length - world.pool.policy.target)).map (·.id))
    rw [hpool]

/-! ## All of it -/

/-- Each part of an upkeep reports what it did, and leaves what the other part reports. -/
theorem report_anchor : (anchor dial world {}).1.removed = [] ∧
    (anchor dial world {}).1.requested = 0 := by
  rw [anchor]
  split_ifs <;> exact ⟨rfl, rfl⟩

theorem report_balance (report : UpkeepReport) :
    (world.balance report).1.bootstrapped = report.bootstrapped ∧
      (world.balance report).1.releasedBootNode = report.releasedBootNode := by
  rw [balance]
  dsimp only
  split_ifs <;> exact ⟨rfl, rfl⟩

/-- An upkeep that takes place does both parts, and finds no duplicates in an orderly pool. -/
theorem maintain_eq (hreceiving : world.pool.receiving = false)
    (hmaintaining : world.pool.maintaining = false) {anchored balanced : UpkeepReport × World}
    (hanchored : anchor dial (world.withPool ({ · with maintaining := true })) {} = anchored)
    (hbalanced : anchored.2.balance anchored.1 = balanced) (horderly : balanced.2.pool.Orderly) :
    world.maintain dial = (some { balanced.1 with duplicates := 0 },
      balanced.2.withPool ({ · with maintaining := false })) := by
  rw [maintain, hreceiving, hmaintaining]
  simp only [Bool.or_self, Bool.false_eq_true, if_false, hanchored, hbalanced,
    removeDuplicates_eq horderly]

/-- **What one upkeep does.**  If another upkeep is under way or a list of peers is worked through,
nothing.  Otherwise its first part finds a first peer for a pool without any, or lets the preferred
boot node go if it is one of more members than half of those that are wanted.  Of the members that
there are then, the oldest go until there are as many as are wanted, and are reported in that order;
if there are fewer, all are asked for as many as are missing.  Then no upkeep is under way. -/
theorem anchored_and_balanced (hdial : dial.Follows outcomes) (horderly : world.pool.Orderly) :
    (world.pool.receiving = true ∨ world.pool.maintaining = true →
      world.maintain dial = (none, world)) ∧
    (world.pool.receiving = false → world.pool.maintaining = false →
      ∃ met report after, world.maintain dial = (some report, after) ∧
        Anchored dial (world.withPool ({ · with maintaining := true })) report met ∧
        Balanced (met.withPool ({ · with maintaining := false })) world.pool.policy.target report
          after ∧
        report.duplicates = 0 ∧ after.pool.maintaining = false ∧ after.pool.receiving = false) := by
  constructor
  · rintro (hbusy | hbusy) <;> rw [maintain, hbusy] <;> simp
  · intro hreceiving hmaintaining
    have hclaimed : (world.withPool ({ · with maintaining := true })).pool.Orderly :=
      horderly.sublist (List.Sublist.refl _) rfl rfl
    obtain ⟨hanchored, hkept, hsame, hidle⟩ := anchored_anchor hdial hclaimed
    obtain ⟨hremoved, hrequested⟩ :=
      @report_anchor (world.withPool ({ · with maintaining := true })) dial
    generalize hfirst : anchor dial (world.withPool ({ · with maintaining := true })) {} = anchored
      at hanchored hkept hsame hidle hremoved hrequested
    have hpolicy : anchored.2.pool.policy = world.pool.policy := hsame
    have hbalanced := balanced_balance hkept hremoved hrequested
    rw [hpolicy] at hbalanced
    obtain ⟨hbootstrapped, hreleased⟩ := @report_balance anchored.2 anchored.1
    have hdone := maintain_eq hreceiving hmaintaining hfirst rfl (balance_kept hkept anchored.1).1
    refine ⟨anchored.2, _, _, hdone, ?_, { hbalanced with }, rfl, rfl, ?_⟩
    · constructor
      case searched => rw [hbootstrapped]; exact hanchored.searched
      case released => exact hanchored.released
      case bootstrapped => rw [hbootstrapped]; exact hanchored.bootstrapped
      case releasedBootNode => rw [hreleased]; exact hanchored.releasedBootNode
    · exact (receiving_balance anchored.1).trans (hidle.trans hreceiving)

end World

/-! ## Pools with too many members and with too few -/

/-- A node that dialed in: its key, its port and its line have one number. -/
def caller (n : UInt8) : Link :=
  ⟨n.toNat, ⟨[n], n.toUInt16, 1⟩, ⟨"b", n.toUInt16⟩, .inbound⟩

/-- A pool without peers that wants two, and knows a boot node. -/
def deserted : Pool :=
  Pool.empty { target := 2, bootnodes := [⟨"b", 1⟩] } [0] none

/-- The same pool with four members, the first of which is the boot node. -/
def crowded : Pool :=
  (((deserted.enroll (caller 1) 1).enroll (caller 2) 1).enroll (caller 3) 1).enroll (caller 4) 1

theorem orderly_crowded : crowded.Orderly :=
  ((((Pool.orderly_empty _ _ _).enroll (by decide) rfl rfl 1).enroll (by decide) rfl rfl 1).enroll
    (by decide) rfl rfl 1).enroll (by decide) rfl rfl 1

/-- Of too many members the boot node goes, then the oldest of the others, and two stay.  A pool
without peers finds the boot node, and asks it for one more. -/
theorem World.anchored_and_balanced_crowded :
    (∃ report after,
      World.maintain (Outcomes.dial fun _ _ => .error (.io "refused")) { pool := crowded } =
        (some report, after) ∧
      crowded.Orderly ∧ report.releasedBootNode = true ∧ report.removed = [2] ∧
      report.requested = 0 ∧ after.pool.gists.map (·.endpoint) = [⟨"b", 3⟩, ⟨"b", 4⟩] ∧
      after.pool.maintaining = false) ∧
    ∃ (report : UpkeepReport) (met : World) (request : Message) (after : World),
      World.maintain (Outcomes.dial fun _ _ => .ok (caller 1)) { pool := deserted } =
        (some report, after) ∧
      deserted.Orderly ∧ report.bootstrapped = some ⟨"b", 1⟩ ∧ report.removed = [] ∧
      report.requested = 1 ∧ PeerRequest.ofMessage request = .ok ⟨1⟩ ∧
      met.pool.gists.map (·.endpoint) = [⟨"b", 1⟩] ∧ after = (met.broadcastAndWait request).2 := by
  constructor
  · obtain ⟨-, hruns⟩ := @World.anchored_and_balanced { pool := crowded } _ _
      (Outcomes.follows_dial fun _ _ => .error (.io "refused")) orderly_crowded
    obtain ⟨met, report, after, hdone, hanchored, hbalanced, -, hidle, -⟩ := hruns rfl rfl
    have hkept : (met.withPool ({ · with maintaining := false })).pool.gists =
        crowded.gists.drop 1 := (hanchored.released nofun).2.trans rfl
    have hremoved := hbalanced.removed
    have hrequested := hbalanced.requested
    have hgists := hbalanced.gists
    rw [hkept] at hremoved hrequested hgists
    refine ⟨report, after, hdone, orderly_crowded, ?_, hremoved, hrequested, ?_, hidle⟩
    · exact hanchored.releasedBootNode.2 ⟨by decide, _, List.mem_cons_self, rfl⟩
    · rw [hgists]
      rfl
  · obtain ⟨-, hruns⟩ := @World.anchored_and_balanced { pool := deserted } _ _
      (Outcomes.follows_dial fun _ _ => .ok (caller 1)) (Pool.orderly_empty _ _ _)
    obtain ⟨met, report, after, hdone, hanchored, hbalanced, -⟩ := hruns rfl rfl
    have hfound := (hanchored.searched rfl).1
    have hendpoints : met.pool.gists.map (·.endpoint) = [⟨"b", 1⟩] :=
      congrArg (fun found => found.2.pool.gists.map (·.endpoint)) hfound
    have hcount : (met.withPool ({ · with maintaining := false })).pool.gists.length = 1 :=
      (List.length_map _).symm.trans (congrArg List.length hendpoints)
    have hremoved := hbalanced.removed
    have hrequested := hbalanced.requested
    rw [hcount] at hremoved hrequested
    obtain ⟨request, count, hread, hnumber, hafter⟩ :=
      hbalanced.asked (by rw [hcount]; decide)
    rw [hcount] at hnumber
    obtain rfl : count = 1 := UInt16.toNat_inj.1 hnumber
    exact ⟨report, met.withPool ({ · with maintaining := false }), request, after, hdone,
      Pool.orderly_empty _ _ _, congrArg Prod.fst hfound, hremoved, hrequested, hread, hendpoints,
      hafter⟩

end Overlay
