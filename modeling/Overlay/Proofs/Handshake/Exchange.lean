import Overlay.Proofs.Handshake.Checking

/-!
# Two nodes exchange handshakes

Over a pair of streams that lose nothing, each side receives exactly what the
other one sends.  The accepting side decides for both: it believes the dialing
side and answers, or it refuses and the dialing side finds the end of its
stream.  What it decides depends only on the keys, the versions and the
admission check.
-/

namespace Overlay

open Wire

/-- A dialing and an accepting side, with a pair of streams that deliver what the other side sends,
cut in pieces and interrupted in any way, and that let every write through. -/
structure Exchange where
  dialer : Handshaker
  acceptor : Handshaker
  admission : Identity → Except NetError Unit
  greetsAt : Int64
  answersAt : Int64
  toDialer : Source
  toAcceptor : Source
  fromDialer : Sink
  fromAcceptor : Sink
  dialerKey : dialer.key.IsMatched
  acceptorKey : acceptor.key.IsMatched
  steadyToDialer : toDialer.IsSteady
  steadyToAcceptor : toAcceptor.IsSteady
  willingFromDialer : fromDialer.IsWilling
  willingFromAcceptor : fromAcceptor.IsWilling
  forth : toAcceptor.unread = (dialer.initiate greetsAt toDialer fromDialer).sent
  back : toDialer.unread = (acceptor.respond admission answersAt toAcceptor fromAcceptor).sent

namespace Exchange

def dialing (exchange : Exchange) : Meeting :=
  exchange.dialer.initiate exchange.greetsAt exchange.toDialer exchange.fromDialer

def accepting (exchange : Exchange) : Meeting :=
  exchange.acceptor.respond exchange.admission exchange.answersAt exchange.toAcceptor
    exchange.fromAcceptor

/-- The handshake with which the dialing side starts. -/
def greeting (exchange : Exchange) : Handshake :=
  exchange.dialer.build exchange.greetsAt

def answer (exchange : Exchange) : Handshake :=
  exchange.acceptor.build exchange.answersAt

/-- The two nodes have keys of their own and a common version, and the dialing one is let in. -/
structure Compatible (exchange : Exchange) : Prop where
  keys : exchange.dialer.key.publicKey ≠ exchange.acceptor.key.publicKey
  versions : exchange.dialer.version = exchange.acceptor.version
  admits : exchange.admission exchange.dialer.identity = .ok ()

variable (exchange : Exchange)

theorem unread_toAcceptor : exchange.toAcceptor.unread = exchange.greeting.bytes := by
  rw [exchange.forth,
    Handshaker.initiate_willing exchange.dialerKey exchange.willingFromDialer, greeting]

theorem opens_greeting : exchange.greeting.Opens exchange.toAcceptor.unread [] := by
  have hopens := Handshaker.opens_build exchange.dialerKey exchange.greetsAt []
  rw [List.append_nil] at hopens
  rw [unread_toAcceptor]
  exact hopens

/-- The accepting side believes at most the greeting, and only that of a compatible node. -/
theorem compatible_of_believes {handshake : Handshake} {rest : Bytes}
    (hbelieves : exchange.acceptor.Believes exchange.toAcceptor.unread handshake rest)
    (hadmission : exchange.admission handshake.claim.identity = .ok ()) : exchange.Compatible := by
  obtain rfl : handshake = exchange.greeting :=
    hbelieves.opens.unique exchange.steadyToAcceptor exchange.opens_greeting
  exact ⟨hbelieves.foreign, hbelieves.sameVersion, hadmission⟩

/-- Of an incompatible node the accepting side refuses the greeting, without a byte of an answer. -/
theorem accepting_of_not_compatible (hincompatible : ¬ exchange.Compatible) :
    (∃ cause, exchange.accepting.result = .error cause) ∧ exchange.accepting.sent = [] := by
  constructor
  · cases hresult : exchange.accepting.result with
    | error cause => exact ⟨cause, rfl⟩
    | ok identity =>
        obtain ⟨handshake, rest, hbelieves, hadmission, -⟩ :=
          (Handshaker.result_respond_eq_ok_iff exchange.acceptorKey exchange.steadyToAcceptor
            exchange.willingFromAcceptor).1 hresult
        exact absurd (exchange.compatible_of_believes hbelieves hadmission) hincompatible
  · refine Decidable.byContradiction fun hsent => ?_
    obtain ⟨handshake, rest, hbelieves, hadmission⟩ :=
      Handshaker.admits_of_sent_ne_nil exchange.steadyToAcceptor hsent
    exact hincompatible (exchange.compatible_of_believes hbelieves hadmission)

/-- Without an answer the dialing side fails. -/
theorem dialing_of_unanswered (hunanswered : exchange.accepting.sent = []) :
    ∃ cause, exchange.dialing.result = .error cause := by
  cases hresult : exchange.dialing.result with
  | error cause => exact ⟨cause, rfl⟩
  | ok identity =>
      obtain ⟨handshake, rest, hbelieves, -⟩ :=
        (Handshaker.result_initiate_eq_ok_iff exchange.dialerKey exchange.steadyToDialer
          exchange.willingFromDialer).1 hresult
      exact absurd (exchange.back.trans hunanswered) hbelieves.opens.ne_nil

/-- The accepting side believes the greeting of a compatible node and answers it. -/
theorem accepting_of_compatible (hcompatible : exchange.Compatible)
    (hgreeting : exchange.greeting.isSigned = true) :
    exchange.accepting.result = .ok exchange.dialer.identity ∧
      exchange.accepting.sent = exchange.answer.bytes := by
  have hbelieves : exchange.acceptor.Believes exchange.toAcceptor.unread exchange.greeting [] :=
    ⟨exchange.opens_greeting, hcompatible.keys, hcompatible.versions, hgreeting⟩
  obtain ⟨next, hreceive, -, -⟩ :=
    Handshaker.receive_of_believes exchange.steadyToAcceptor hbelieves
  have hidentity : exchange.greeting.claim.identity = exchange.dialer.identity :=
    exchange.dialer.identity_build exchange.greetsAt
  obtain ⟨hsend, htaken⟩ :=
    Handshake.send_willing
      (Handshaker.length_encode_build_le exchange.acceptorKey exchange.answersAt)
      exchange.willingFromAcceptor
  rw [hidentity] at hreceive
  rw [accepting, Handshaker.respond_of_admitted hreceive hcompatible.admits, hsend, htaken]
  exact ⟨rfl, rfl⟩

/-- The dialing side believes the answer of a compatible node. -/
theorem dialing_of_answered (hcompatible : exchange.Compatible)
    (hanswer : exchange.answer.isSigned = true)
    (hanswered : exchange.accepting.sent = exchange.answer.bytes) :
    exchange.dialing.result = .ok exchange.acceptor.identity := by
  have hunread : exchange.toDialer.unread = exchange.answer.bytes ++ [] := by
    rw [exchange.back, List.append_nil]
    exact hanswered
  refine (Handshaker.result_initiate_eq_ok_iff exchange.dialerKey exchange.steadyToDialer
    exchange.willingFromDialer).2 ⟨exchange.answer, [], ?_, rfl⟩
  rw [hunread]
  exact Handshaker.believes_build exchange.acceptorKey hcompatible.keys.symm
    hcompatible.versions.symm hanswer []

/-- **Both sides meet each other or neither does**: they do exactly if they are compatible, and
otherwise the accepting side sends nothing.  Whenever the two build a handshake, it is short enough
for whom receives it. -/
theorem meet_or_fail (hgreeting : exchange.greeting.isSigned = true)
    (hanswer : exchange.answer.isSigned = true) :
    (exchange.Compatible ∧ exchange.dialing.result = .ok exchange.acceptor.identity ∧
          exchange.accepting.result = .ok exchange.dialer.identity ∨
      ¬ exchange.Compatible ∧ (∃ cause, exchange.dialing.result = .error cause) ∧
          (∃ cause, exchange.accepting.result = .error cause) ∧ exchange.accepting.sent = []) ∧
      ∀ timestamp,
        (exchange.dialer.build timestamp).encode.length ≤ maxHandshakeLength ∧
          (exchange.acceptor.build timestamp).encode.length ≤ maxHandshakeLength := by
  refine ⟨?_, fun timestamp => ⟨?_, ?_⟩⟩
  · by_cases hcompatible : exchange.Compatible
    · obtain ⟨haccepting, hanswered⟩ := exchange.accepting_of_compatible hcompatible hgreeting
      have hdialing := exchange.dialing_of_answered hcompatible hanswer hanswered
      exact Or.inl ⟨hcompatible, hdialing, haccepting⟩
    · obtain ⟨haccepting, hunanswered⟩ := exchange.accepting_of_not_compatible hcompatible
      have hdialing := exchange.dialing_of_unanswered hunanswered
      exact Or.inr ⟨hcompatible, hdialing, haccepting, hunanswered⟩
  · exact Handshaker.length_encode_build_le exchange.dialerKey timestamp
  · exact Handshaker.length_encode_build_le exchange.acceptorKey timestamp

/-! ## Any two nodes -/

/-- Any two nodes exchange handshakes over streams that deliver at once what is sent. -/
def direct (dialer acceptor : Handshaker) (admission : Identity → Except NetError Unit)
    (greetsAt answersAt : Int64) (hdialer : dialer.key.IsMatched)
    (hacceptor : acceptor.key.IsMatched) : Exchange :=
  let toAcceptor := Source.whole (dialer.build greetsAt).bytes
  let accepting := acceptor.respond admission answersAt toAcceptor {}
  { dialer, acceptor, admission, greetsAt, answersAt, toAcceptor
    toDialer := .whole accepting.sent
    fromDialer := {}
    fromAcceptor := {}
    dialerKey := hdialer
    acceptorKey := hacceptor
    steadyToDialer := Source.isSteady_whole _
    steadyToAcceptor := Source.isSteady_whole _
    willingFromDialer := Sink.isWilling_empty
    willingFromAcceptor := Sink.isWilling_empty
    forth := by
      rw [Handshaker.initiate_willing hdialer Sink.isWilling_empty]
      exact Source.unread_whole _
    back := Source.unread_whole _ }

/-- The first two nodes meet. -/
theorem meet_or_fail_first :
    let exchange := direct .first .second (fun _ => .ok ()) 0 0 Handshaker.isMatched_first
      Handshaker.isMatched_second
    exchange.greeting.isSigned = true ∧ exchange.answer.isSigned = true ∧
      exchange.dialing.result = .ok Handshaker.second.identity ∧
      exchange.accepting.result = .ok Handshaker.first.identity := by
  intro exchange
  have hgreeting : exchange.greeting.isSigned = true := Handshaker.isSigned_build_first
  have hanswer : exchange.answer.isSigned = true := Handshaker.isSigned_build_second
  have hcompatible : exchange.Compatible := ⟨Handshaker.publicKey_first_ne, rfl, rfl⟩
  obtain ⟨-, hdialing, haccepting⟩ | ⟨hincompatible, -⟩ :=
    (exchange.meet_or_fail hgreeting hanswer).1
  · exact ⟨hgreeting, hanswer, hdialing, haccepting⟩
  · exact absurd hcompatible hincompatible

end Exchange

end Overlay
