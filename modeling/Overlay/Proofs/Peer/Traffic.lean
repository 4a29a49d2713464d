import Overlay.Peer.Traffic
import Overlay.Proofs.Wire.Sending

/-!
# What traffic changes in a peer

Messages that are queued, written or read change what a session holds, and
neither the line of it nor anything else of the peer.  Verdicts on messages
that can be split find no fault with the size of chunks.
-/

namespace Overlay

open Wire

/-- The size of chunks is found at fault only with a message that cannot be split. -/
theorem Wire.Outbox.result_ne_config {outbox : Outbox} {size : Nat} {sink : Sink} {step : Step}
    (hstep : outbox.step? size sink = some step) {verdict : Verdict}
    (hverdict : step.verdict = some verdict) (hsplit : (verdict.job.message.split size).isOk)
    (fault : ConfigFault) : verdict.result ≠ .error (.config fault) := by
  obtain ⟨queue, phase⟩ := outbox
  cases phase with
  | running =>
      cases queue with
      | nil => exact absurd hstep nofun
      | cons job rest =>
          obtain rfl := Option.some.inj hstep
          obtain rfl := Option.some.inj hverdict
          rcases sendMessage_cases job.message size sink with
            ⟨cause, herror, -⟩ | ⟨-, ⟨hok, -⟩ | ⟨cause, herror, htransient, -⟩⟩
          · rw [herror] at hsplit
            exact absurd hsplit nofun
          · rw [hok]
            exact nofun
          · intro hconfig
            obtain rfl := Except.error.inj (herror.symm.trans hconfig)
            exact absurd htransient nofun
  | draining cause =>
      cases queue with
      | nil =>
          obtain rfl := Option.some.inj hstep
          exact absurd hverdict nofun
      | cons job rest =>
          obtain rfl := Option.some.inj hstep
          obtain rfl := Option.some.inj hverdict
          exact nofun
  | closing cause =>
      obtain rfl := Option.some.inj hstep
      exact absurd hverdict nofun
  | ended => exact absurd hstep nofun

namespace Session

/-- Whether the line of a session has no room for the message that is next. -/
def isBlocked (session : Session) (line : Line) : Bool :=
  session.outbox.queue.head?.any fun job => !line.hasRoom job.message.payload.size

/-- A session waits as its line has no room or its writer has nothing to do, or it goes through one
step of the writing and then through the rest. -/
theorem drain_cases (size fuel : Nat) (session : Session) (line : Line) :
    session.drain size (fuel + 1) line = (session, line, []) ∧
        (session.isBlocked line = true ∨ session.outbox.step? size line.sink = none) ∨
      ∃ (step : Outbox.Step) (next : Session),
        session.outbox.step? size line.sink = some step ∧ next.line = session.line ∧
        next.outbox = step.outbox ∧ session.drain size (fuel + 1) line =
          ((next.drain size fuel (line.carry step.taken)).1,
            (next.drain size fuel (line.carry step.taken)).2.1,
            step.verdict.toList ++ (next.drain size fuel (line.carry step.taken)).2.2) := by
  rw [drain]
  split_ifs with hblocked
  · refine Or.inl ⟨rfl, Or.inl ?_⟩
    rw [isBlocked]
    cases hqueue : session.outbox.queue with
    | nil => simp [hqueue] at hblocked
    | cons job rest => simpa [hqueue] using hblocked
  · cases hstep : session.outbox.step? size line.sink with
    | none => exact Or.inl ⟨rfl, Or.inr rfl⟩
    | some step =>
        refine Or.inr ⟨step, _, rfl, ?_, ?_, rfl⟩
        · rfl
        · rfl

theorem drain_line (size fuel : Nat) (session : Session) (line : Line) :
    (session.drain size fuel line).1.line = session.line := by
  induction fuel generalizing session line with
  | zero => rfl
  | succ fuel ih =>
      rcases session.drain_cases size fuel line with ⟨hwaits, -⟩ | ⟨step, next, -, hline, -, hdrain⟩
      · rw [hwaits]
      · rw [hdrain]
        exact (ih next _).trans hline

theorem drain_result_ne_config {size fuel : Nat} {session : Session} {line : Line}
    {verdict : Verdict} (hverdict : verdict ∈ (session.drain size fuel line).2.2)
    (hsplit : (verdict.job.message.split size).isOk) (fault : ConfigFault) :
    verdict.result ≠ .error (.config fault) := by
  induction fuel generalizing session line with
  | zero => exact absurd hverdict List.not_mem_nil
  | succ fuel ih =>
      rcases session.drain_cases size fuel line with ⟨hwaits, -⟩ | ⟨step, next, hstep, -, -, hdrain⟩
      · rw [hwaits] at hverdict
        exact absurd hverdict List.not_mem_nil
      · rw [hdrain] at hverdict
        rcases List.mem_append.1 hverdict with hown | hlater
        · exact Outbox.result_ne_config hstep (Option.mem_toList.1 hown) hsplit fault
        · exact ih hlater

end Session

/-- What tells the members of a pool apart. -/
structure Peer.Card where
  id : Nat
  identity : Identity
  endpoint : Endpoint
  deriving DecidableEq

/-- What a pool keeps of a peer whatever is sent on its session. -/
structure Peer.Gist extends Peer.Card where
  state : PeerState
  line : Option Nat

namespace Peer

def card (peer : Peer) : Card where
  id := peer.id
  identity := peer.identity
  endpoint := peer.endpoint

def gist (peer : Peer) : Gist where
  toCard := peer.card
  state := peer.state
  line := peer.session.map (·.line)

theorem gist_enqueue {peer next : Peer} {job : Job} (henqueue : peer.enqueue job = .ok next) :
    next.gist = peer.gist := by
  rw [enqueue] at henqueue
  split at henqueue
  · exact absurd henqueue nofun
  · cases hsession : peer.session with
    | none =>
        rw [hsession] at henqueue
        exact absurd henqueue nofun
    | some session =>
        simp only [hsession] at henqueue
        split at henqueue
        · exact absurd henqueue nofun
        · rw [← Except.ok.inj henqueue, gist, gist, hsession]
          rfl

theorem gist_write (peer : Peer) (net : Net) : (peer.write net).1.gist = peer.gist := by
  rw [write]
  cases hsession : peer.session with
  | none => rfl
  | some session =>
      rw [gist, gist, hsession]
      simp only [Option.map_some, Session.drain_line]
      rfl

theorem gist_sayGoodbye (peer : Peer) (net : Net) : (peer.sayGoodbye net).1.gist = peer.gist := by
  rw [sayGoodbye]
  split
  · rfl
  · next queued henqueue => exact (queued.gist_write net).trans (gist_enqueue henqueue)

theorem write_result_ne_config {peer : Peer} {net : Net} {verdict : Verdict}
    (hverdict : verdict ∈ (peer.write net).2.2)
    (hsplit : (verdict.job.message.split peer.policy.chunkSize).isOk) (fault : ConfigFault) :
    verdict.result ≠ .error (.config fault) := by
  rw [write] at hverdict
  cases hsession : peer.session with
  | none =>
      rw [hsession] at hverdict
      exact absurd hverdict List.not_mem_nil
  | some session =>
      rw [hsession] at hverdict
      exact Session.drain_result_ne_config hverdict hsplit fault

end Peer

end Overlay
