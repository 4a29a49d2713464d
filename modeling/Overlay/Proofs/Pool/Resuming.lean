import Mathlib.Tactic.SplitIfs
import Overlay.Proofs.Peer.Redialing
import Overlay.Proofs.Pool.Dialing
import Overlay.Proofs.Pool.Showing

/-!
# Searches of a world

A world whose dials end as is laid down looks for a line as the supervisor of a
life does whose dials end so: until the first good link, or until the dials of
the peer are used up.
-/

namespace Overlay

/-- How the dials of an endpoint end after others were dialed.  A world opens a session on every
line. -/
def Outcomes.script (outcomes : Outcomes) (history : List Endpoint) (e : Endpoint) (index : Nat) :
    Answer :=
  match outcomes (history ++ List.replicate index e) e with
  | .error cause => .failed cause
  | .ok link => .linked link (.ok ())

namespace World

/-- What a search of a world comes to: the first good link within the dials that the peer has, or
none. -/
inductive Settles (script : Nat → Answer) (peer : Peer) (world : World)
    (searched : Search × World) : Prop
  | restored {made line : Nat} (hmade : made < peer.dials)
      (hbefore : ∀ index < made, ∃ cause,
        (script index).outcome peer.identity.publicKey = .error cause)
      (hgood : (script made).outcome peer.identity.publicKey = .ok line)
      (hresult : searched.1 = .restored)
      (hdialed : searched.2.net.dialed =
        world.net.dialed ++ List.replicate (made + 1) peer.endpoint)
      (hmember : searched.2.pool.member? peer.id =
        some { peer with state := .connected, session := some { line } })
  | exhausted {cause : NetError} (hall : ∀ index < peer.dials, ∃ cause,
        (script index).outcome peer.identity.publicKey = .error cause)
      (hresult : searched.1 = .exhausted cause)
      (hdialed : searched.2.net.dialed =
        world.net.dialed ++ List.replicate peer.dials peer.endpoint)
      (hmember : searched.2.pool.member? peer.id =
        some { peer with state := .disconnected, session := none })
      (hunmade : peer.dials = 0 → cause = peer.notConnected)
      (hlatest : ∀ index, peer.dials = index + 1 →
        (script index).outcome peer.identity.publicKey = .error cause)

variable {world met : World} {dial : Dial} {outcomes : Outcomes} {peer : Peer}

theorem member?_put {id : Nat} {changed : Peer} (hmember : world.pool.member? id = some peer)
    (hid : changed.id = id) : (world.put changed).pool.member? id = some changed := by
  subst hid
  show (world.pool.change changed.id fun _ => changed).member? changed.id = some changed
  rw [Pool.member?_change _ fun _ _ => rfl, hmember]
  simp

/-- A search that goes on after some dials have failed. -/
theorem settles_of_fails (hdial : dial.Follows outcomes) (hstate : peer.state = .reconnecting)
    (hsession : peer.session = none) (hhandoff : peer.handoff = none)
    (hcancelled : peer.cancelled = false) {made slots : Nat} {last : NetError}
    (hmember : met.pool.member? peer.id = some peer)
    (hdialed : met.net.dialed = world.net.dialed ++ List.replicate made peer.endpoint)
    (hfails : Life.Fails (outcomes.script world.net.dialed peer.endpoint) peer made last)
    (hbound : made ≤ peer.dials)
    (hslots : peer.direction = .outbound → made + slots = peer.dials) :
    Settles (outcomes.script world.net.dialed peer.endpoint) peer world
      (met.search dial peer.id slots last) := by
  -- over the slots, with the dials that were made
  induction slots generalizing made last met with
  | zero =>
      have hmade : made = peer.dials := by
        cases hdirection : peer.direction with
        | outbound => exact hslots hdirection
        | inbound =>
            rw [Peer.dials, hdirection] at hbound ⊢
            exact Nat.le_zero.1 hbound
      subst hmade
      have hexhaust := (Peer.exhaust_eq_some_iff peer _).2 ⟨hstate, rfl⟩
      rw [search, hmember, Option.bind_some, hexhaust]
      refine .exhausted hfails.all rfl hdialed ?_ hfails.unmade hfails.latest
      rw [← hsession]
      exact member?_put hmember rfl
  | succ slots ih =>
      rw [search, hmember]
      dsimp only
      rw [hhandoff, hcancelled, Option.isSome_none, if_neg Bool.false_ne_true,
        if_neg Bool.false_ne_true]
      cases hdirection : peer.direction with
      | inbound =>
          refine ih hmember hdialed hfails hbound fun hout => ?_
          cases hdirection.symm.trans hout
      | outbound =>
          have hcount := hslots hdirection
          rcases hanswer : dial peer.endpoint met with ⟨result, after⟩
          obtain ⟨hresult, hafter, hpool⟩ : outcomes met.net.dialed peer.endpoint = result ∧
              after.net.dialed = met.net.dialed ++ [peer.endpoint] ∧ after.pool = met.pool := by
            have hends := hdial.result peer.endpoint met
            have hgrows := hdial.dialed peer.endpoint met
            have hkept := hdial.pool peer.endpoint met
            rw [hanswer] at hends hgrows hkept
            exact ⟨hends.symm, hgrows, hkept⟩
          rw [hdialed] at hresult
          rw [hdialed, List.append_assoc, ← List.replicate_succ'] at hafter
          rw [← hpool] at hmember
          cases result with
          | error cause =>
              refine ih hmember hafter (hfails.succ ?_) (by omega) (fun _ => by omega)
              rw [Outcomes.script, hresult]
              rfl
          | ok link =>
              have hscript : outcomes.script world.net.dialed peer.endpoint made =
                  .linked link (.ok ()) := by
                rw [Outcomes.script, hresult]
              dsimp only
              split_ifs with hkey
              · have hinstall := (Peer.install_eq_some_iff peer _ link.line).2 ⟨hstate, rfl⟩
                rw [redialed, hmember, Option.bind_some, hinstall]
                refine .restored (by omega) hfails.all ?_ rfl hafter (member?_put hmember rfl)
                rw [hscript, Answer.outcome]
                exact if_pos hkey
              · refine ih hmember hafter (hfails.succ ?_) (by omega) (fun _ => by omega)
                rw [hscript, Answer.outcome]
                exact if_neg hkey

/-- A search of a world comes to what the script of its dials says. -/
theorem settles_search (hdial : dial.Follows outcomes)
    (hmember : world.pool.member? peer.id = some peer) (hstate : peer.state = .reconnecting)
    (hsession : peer.session = none) (hhandoff : peer.handoff = none)
    (hcancelled : peer.cancelled = false) {slots : Nat} (hslots : peer.slots? = some slots) :
    Settles (outcomes.script world.net.dialed peer.endpoint) peer world
      (world.search dial peer.id slots peer.notConnected) := by
  refine settles_of_fails hdial hstate hsession hhandoff hcancelled hmember ?_
    (Life.fails_zero _ peer) (Nat.zero_le _) fun hdirection => ?_
  · exact (List.append_nil _).symm
  · rw [Nat.zero_add]
    exact Peer.slots_of_outbound hdirection hslots

end World

namespace Life

/-- **A search that nobody interferes with ends on the first good link, or with the error of the
last dial.**  It comes to an end, it dials the endpoint of the peer only, as often as it takes and
never more often than the peer may be dialed, and no link with another key is ever that of the
session.  A world that holds the peer searches in the same way. -/
theorem redials_until_good {id : Nat} {link : Link} {policy : LinkPolicy}
    (hattempts : policy.attempts + 1 < UInt32.size) {count line : Nat} {life : Life}
    (hrun : Run (start id link policy) count life) (hstage : life.stage = .losing line)
    (hstate : life.peer.state ≠ .disconnected) :
    (∀ script, Novel script life →
      (∃ dialed settled, Redials script life dialed settled ∧ settled.stage.hasSettled = true) ∧
      ∀ dialed later, Redials script life dialed later →
        (later.stage.hasSettled = true → Settles script life dialed later) ∧
        ∀ index link opening, script index = .linked link opening →
          link.identity.publicKey ≠ life.peer.identity.publicKey →
          later.line? ≠ some link.line) ∧
    ∃ slots, life.peer.slots? = some slots ∧
      ∀ (dial : Dial) (outcomes : Outcomes) (world : World), dial.Follows outcomes →
        world.pool.member? life.peer.id = some life.peer.bereft →
        World.Settles (outcomes.script world.net.dialed life.peer.endpoint) life.peer.bereft world
          (world.search dial life.peer.id slots life.peer.notConnected) := by
  have hsound := hrun.sound (sound_start id link policy)
  have hloses := hsound.losesOut hstage hstate
  have hpolicy : life.peer.policy = policy := hrun.sameSetup.policy
  obtain ⟨slots, hslots⟩ := @Peer.exists_slots life.peer (by rw [hpolicy]; exact hattempts)
  refine ⟨fun script hnovel => ⟨?_, fun dialed later hredials => ⟨?_, ?_⟩⟩, slots, hslots,
    fun dial outcomes world hdial hmember => ?_⟩
  · -- the first section gives up the session, and then the search is on
    have hlose : life.peer.lose = some (life.peer.session.map (·.line), life.peer.bereft) :=
      (Peer.lose_eq_some_iff _ _ _).2 ⟨hstate, rfl, rfl⟩
    have hlost := (@Redials.refl script life).go (by rw [hstage]; rfl) (by rw [hstage]; rfl) rfl
      (.lose hstage hlose)
    exact hlost.exists_settled hloses hnovel ⟨slots, hslots⟩ rfl
  · exact hredials.settles hloses
  · intro index link opening hanswer hkey
    exact hredials.line?_ne hloses hsound hnovel hanswer hkey
  · exact @World.settles_search world dial outcomes life.peer.bereft hdial hmember rfl rfl
      hloses.handoff hloses.cancelled slots hslots

/-- The node of a peer as it is dialed, on a line, with a key. -/
def linkTo (line : Nat) (key : UInt8) : Link where
  line
  identity := ⟨[key], 7000, 1⟩
  endpoint := ⟨"b", 7000⟩
  direction := .outbound

/-- The first dial fails, another node answers the second one, and the third succeeds. -/
def thirdTime : Nat → Answer
  | 0 => .failed (.io "refused")
  | 1 => .linked (linkTo 1 9) (.ok ())
  | 2 => .linked (linkTo 2 1) (.ok ())
  | _ => .failed (.io "refused")

/-- A peer whose line was reset, and whose supervisor is about to give up the session. -/
def severed : Life :=
  { start 1 (linkTo 0 1) {} with stage := .losing 0 }

theorem run_severed : Run (start 1 (linkTo 0 1) {}) 3 severed :=
  (@Run.refl (start 1 (linkTo 0 1) {}))
    |>.supervise (Supervised.stop rfl (.io "reset"))
    |>.supervise (Supervised.live rfl nofun)
    |>.supervise (Supervised.stay rfl rfl)

theorem novel_thirdTime : Novel thirdTime severed := by
  have hlines : ∀ {index link opening}, thirdTime index = .linked link opening →
      link.line = index ∧ 0 < index := by
    intro index link opening hanswer
    match index, hanswer with
    | 1, hanswer => exact ⟨(Answer.linked.inj hanswer).1 ▸ rfl, by decide⟩
    | 2, hanswer => exact ⟨(Answer.linked.inj hanswer).1 ▸ rfl, by decide⟩
  refine ⟨fun hanswer hline => ?_, fun hanswer hother hsame => ?_⟩
  · obtain ⟨hindex, hpositive⟩ := hlines hanswer
    have hzero := List.mem_singleton.1 hline
    exact absurd (hindex.symm.trans hzero) (Nat.ne_of_gt hpositive)
  · rw [← (hlines hanswer).1, hsame, (hlines hother).1]

/-- The peer is dialed three times and resumes on the line of the third dial. -/
theorem redials_until_good_third :
    Run (start 1 (linkTo 0 1) {}) 3 severed ∧ Novel thirdTime severed ∧
      ∃ settled, Redials thirdTime severed (List.replicate 3 ⟨"b", 7000⟩) settled ∧
        settled.stage = .restored 2 ∧ settled.peer.state = .connected ∧
        settled.line? = some 2 := by
  obtain ⟨hscripts, -⟩ := redials_until_good (by decide) run_severed rfl (by decide)
  obtain ⟨⟨dialed, settled, hredials, hsettled⟩, hall⟩ := hscripts thirdTime novel_thirdTime
  refine ⟨run_severed, novel_thirdTime, settled, ?_⟩
  cases (hall dialed settled hredials).1 hsettled with
  | @restored made line hmade hbefore hgood hdialed hstage hstate hsession =>
      rcases made with _ | _ | _ | more
      · cases hgood
      · cases hgood
      · obtain rfl : 2 = line := Except.ok.inj hgood
        rw [hdialed] at hredials
        exact ⟨hredials, hstage, hstate, by rw [line?, hsession]; rfl⟩
      · exact absurd hmade (Nat.not_lt.2 (Nat.le_add_left 3 more))
  | exhausted hall =>
      obtain ⟨cause, herror⟩ := hall 2 (by decide)
      cases herror

end Life

end Overlay
