import Overlay.Proofs.Handshake.Greeting
import Overlay.Proofs.Wire.Arrival
import Overlay.Proofs.Wire.Grammar

/-!
# What a handshake has to be

A node believes a stream that starts with the whole frame of a handshake that
decodes, is not too long, names another key and the same version, and is
signed with the key that it names.  Whatever else arrives is refused before
anybody is asked about it and before a byte of an answer is sent, and of what
is believed nothing behind the frame is taken.
-/

namespace Overlay

open Wire

/-- A byte string starts with the frame of a handshake, which nodes send whole. -/
def Handshake.Opens (handshake : Handshake) (input rest : Bytes) : Prop :=
  ∃ payload : Bytes,
    input = Frame.header MessageKind.handshake.tag 0 payload.length ++ payload ++ rest ∧
      payload.length ≤ maxHandshakeLength ∧
      Payload.decodeAll Handshake.decode payload = .ok handshake

/-- A node believes the handshake with which a byte string starts. -/
structure Handshaker.Believes (node : Handshaker) (input : Bytes) (handshake : Handshake)
    (rest : Bytes) : Prop where
  opens : handshake.Opens input rest
  foreign : handshake.claim.publicKey ≠ node.key.publicKey
  sameVersion : handshake.claim.version = node.version
  signed : Crypto.Ecdsa.verify handshake.claim.publicKey handshake.signature
    handshake.claim.encode = true

namespace Handshake

theorem ofMessage_eq_ok_iff {message : Message} {handshake : Handshake} :
    ofMessage message = .ok handshake ↔
      message.tag = MessageKind.handshake.tag ∧
        Payload.decodeAll Handshake.decode message.payload.bytes = .ok handshake := by
  rw [ofMessage, MessageKind.decode, Payload.deserialize]
  by_cases htag : message.tag = MessageKind.handshake.tag
  · rw [if_pos htag]
    cases Payload.decodeAll Handshake.decode message.payload.bytes <;> simp [Except.mapError, htag]
  · simp [htag]

/-- The handshake with which a stream starts is received, and what follows it is left. -/
theorem receive_of_opens {source : Source} (hsteady : source.IsSteady) {handshake : Handshake}
    {rest : Bytes} (hopens : handshake.Opens source.unread rest) :
    ∃ next : Source, receive source = (.ok handshake, next) ∧ next.unread = rest ∧
      next.IsSteady := by
  obtain ⟨payload, hinput, hlength, hdecode⟩ := hopens
  let message : Message := MessageKind.handshake.message (.ofBytes payload)
  have hpayload : message.payload.bytes = payload := Payload.bytes_ofBytes payload
  have hsize : message.payload.size = payload.length := by
    rw [← Payload.length_bytes, hpayload]
  have hbytes : (Frame.whole message).bytes =
      Frame.header MessageKind.handshake.tag 0 payload.length ++ payload := by
    rw [Frame.bytes, hsize, hpayload]
    rfl
  have hfits : (Frame.whole message).length ≤ maxFrameLength := by
    rw [Frame.length, hsize]
    exact Nat.le_trans hlength (by decide)
  have hunread : source.unread = (Frame.whole message).bytes ++ rest := by
    rw [hinput, hbytes]
  obtain ⟨next, hread, hnext, hsteadyNext⟩ :=
    Frame.read_bytes (.whole message) hfits hsteady hunread
  have hmessage : ofMessage message = .ok handshake :=
    ofMessage_eq_ok_iff.2 ⟨rfl, hpayload.symm ▸ hdecode⟩
  refine ⟨next, ?_, hnext, hsteadyNext⟩
  rw [receive, hread]
  simp only
  rw [if_pos (hsize ▸ hlength), hmessage]

/-- A stream of which a handshake was received started with it. -/
theorem opens_of_receive {source next : Source} (hsteady : source.IsSteady) {handshake : Handshake}
    (hreceive : receive source = (.ok handshake, next)) :
    handshake.Opens source.unread next.unread := by
  rw [receive] at hreceive
  cases hread : Frame.read source with
  | mk frame after =>
      rw [hread] at hreceive
      cases frame with
      | error cause => cases hreceive
      | ok frame =>
          cases frame with
          | chunk chunk => cases hreceive
          | whole message =>
              by_cases hlength : message.payload.size ≤ maxHandshakeLength
              · simp only [if_pos hlength, Prod.mk.injEq, ofMessage_eq_ok_iff] at hreceive
                obtain ⟨⟨htag, hdecode⟩, rfl⟩ := hreceive
                obtain ⟨hunread, -⟩ := Frame.unread_of_read_whole hsteady hread
                refine ⟨message.payload.bytes, ?_, ?_, hdecode⟩
                · rw [hunread, Frame.bytes, htag, Payload.length_bytes]
                · rw [Payload.length_bytes]
                  exact hlength
              · simp only [if_neg hlength] at hreceive
                cases hreceive

end Handshake

namespace Handshake

theorem Opens.ne_nil {handshake : Handshake} {input rest : Bytes}
    (hopens : handshake.Opens input rest) : input ≠ [] := by
  obtain ⟨payload, rfl, -, -⟩ := hopens
  exact nofun

/-- A stream starts with at most one handshake. -/
theorem Opens.unique {source : Source} (hsteady : source.IsSteady) {handshake other : Handshake}
    {rest after : Bytes} (hopens : handshake.Opens source.unread rest)
    (hother : other.Opens source.unread after) : handshake = other := by
  obtain ⟨next, hreceive, -, -⟩ := receive_of_opens hsteady hopens
  obtain ⟨next', hreceive', -, -⟩ := receive_of_opens hsteady hother
  exact Except.ok.inj (congrArg Prod.fst (hreceive.symm.trans hreceive'))

end Handshake

namespace Handshaker

variable {node : Handshaker}

theorem opens_build (hkey : node.key.IsMatched) (timestamp : Int64) (rest : Bytes) :
    (node.build timestamp).Opens ((node.build timestamp).bytes ++ rest) rest := by
  have hlong : 65 < Bytes.span 8 := by decide
  have hpublic : (node.build timestamp).claim.publicKey.length < Bytes.span 8 :=
    Nat.lt_of_le_of_lt hkey.length_publicKey_le hlong
  have hsignature : (node.build timestamp).signature.length < Bytes.span 8 :=
    Nat.lt_of_le_of_lt (node.key.length_sign_le _) (Nat.lt_of_succ_lt hlong)
  exact ⟨(node.build timestamp).encode, rfl, length_encode_build_le hkey timestamp,
    (Handshake.reads_encode hpublic hsignature).decodeAll_eq⟩

/-- A node believes the handshake of another one that has its version and a signature that holds. -/
theorem believes_build {other : Handshaker} (hkey : other.key.IsMatched)
    (hforeign : other.key.publicKey ≠ node.key.publicKey) (hversion : other.version = node.version)
    {timestamp : Int64} (hsigned : (other.build timestamp).isSigned = true) (rest : Bytes) :
    node.Believes ((other.build timestamp).bytes ++ rest) (other.build timestamp) rest :=
  ⟨opens_build hkey timestamp rest, hforeign, hversion, hsigned⟩

/-- The node that a believed handshake claims to come from is met. -/
theorem receive_of_believes {source : Source} (hsteady : source.IsSteady) {handshake : Handshake}
    {rest : Bytes} (hbelieves : node.Believes source.unread handshake rest) :
    ∃ next : Source, node.receive source = (.ok handshake.claim.identity, next) ∧
      next.unread = rest ∧ next.IsSteady := by
  obtain ⟨next, hreceive, hnext, hsteadyNext⟩ :=
    Handshake.receive_of_opens hsteady hbelieves.opens
  have hverify : node.verify handshake = .ok handshake.claim.identity :=
    verify_eq_ok_iff.2 ⟨hbelieves.foreign, hbelieves.sameVersion, hbelieves.signed, rfl⟩
  refine ⟨next, ?_, hnext, hsteadyNext⟩
  rw [receive, hreceive]
  simp only [hverify]

/-- A node that was met has sent a handshake that is believed. -/
theorem believes_of_receive {source next : Source} (hsteady : source.IsSteady) {identity : Identity}
    (hreceive : node.receive source = (.ok identity, next)) :
    ∃ handshake : Handshake, node.Believes source.unread handshake next.unread ∧
      identity = handshake.claim.identity := by
  rw [receive] at hreceive
  split at hreceive
  · exact absurd hreceive nofun
  · next handshake after hhandshake =>
      rw [Prod.mk.injEq, verify_eq_ok_iff] at hreceive
      obtain ⟨⟨hkey, hversion, hsigned, hidentity⟩, rfl⟩ := hreceive
      exact ⟨handshake, ⟨Handshake.opens_of_receive hsteady hhandshake, hkey, hversion, hsigned⟩,
        hidentity.symm⟩

/-- The accepting side asks about whom it met. -/
theorem respond_of_receive {admission : Identity → Except NetError Unit} {timestamp : Int64}
    {source next : Source} {sink : Sink} {identity : Identity}
    (hreceive : node.receive source = (.ok identity, next)) :
    (node.respond admission timestamp source sink).consulted = some identity ∧
      (node.respond admission timestamp source sink).source = next := by
  rw [respond, hreceive]
  cases hadmission : admission identity <;> simp only [hadmission, and_self]

/-- The accepting side answers whom it lets in. -/
theorem respond_of_admitted {admission : Identity → Except NetError Unit} {timestamp : Int64}
    {source next : Source} {sink : Sink} {identity : Identity}
    (hreceive : node.receive source = (.ok identity, next))
    (hadmission : admission identity = .ok ()) :
    node.respond admission timestamp source sink =
      { result := ((node.build timestamp).send sink).result.map fun () => identity
        consulted := some identity
        sent := ((node.build timestamp).send sink).taken
        source := next } := by
  rw [respond, hreceive]
  simp only [hadmission]

/-- What the accepting side comes to: it refuses what it received, or the admission check refuses
the node that it met, or it answers. -/
theorem respond_cases (node : Handshaker) (admission : Identity → Except NetError Unit)
    (timestamp : Int64) (source : Source) (sink : Sink) :
    (∃ cause next, node.receive source = (.error cause, next) ∧
        node.respond admission timestamp source sink =
          { result := .error cause, source := next }) ∨
      ∃ identity next, node.receive source = (.ok identity, next) ∧
        ((∃ cause, admission identity = .error cause ∧
            node.respond admission timestamp source sink =
              { result := .error cause, consulted := some identity, source := next }) ∨
          admission identity = .ok () ∧
            node.respond admission timestamp source sink =
              { result := ((node.build timestamp).send sink).result.map fun () => identity
                consulted := some identity
                sent := ((node.build timestamp).send sink).taken
                source := next }) := by
  cases hreceive : node.receive source with
  | mk result next =>
      cases result with
      | error cause =>
          refine Or.inl ⟨cause, next, rfl, ?_⟩
          rw [respond, hreceive]
      | ok identity =>
          refine Or.inr ⟨identity, next, rfl, ?_⟩
          cases hadmission : admission identity with
          | error cause =>
              refine Or.inl ⟨cause, rfl, ?_⟩
              rw [respond, hreceive]
              simp only [hadmission]
          | ok => exact Or.inr ⟨rfl, respond_of_admitted hreceive hadmission⟩

/-- What one side of a handshake has not taken: a reader gets from there what it would get from any
stream of just these bytes, however many messages it reads. -/
def Leaves (meeting : Meeting) (rest : Bytes) : Prop :=
  meeting.source.unread = rest ∧ ∀ follow : Source, follow.IsSteady → follow.unread = rest →
    ∀ count : Nat, Inbox.readTimes count { source := meeting.source } =
      Inbox.readTimes count { source := follow }

theorem leaves_of_steady {meeting : Meeting} {rest : Bytes} (hsteady : meeting.source.IsSteady)
    (hrest : meeting.source.unread = rest) : Leaves meeting rest :=
  ⟨hrest, fun _ hfollow hunread count =>
    Inbox.readTimes_alike count .idle ⟨hsteady, hfollow, hrest.trans hunread.symm⟩⟩

section Accepting

variable {admission : Identity → Except NetError Unit} {timestamp : Int64} {source : Source}
  {sink : Sink}

/-- The admission check is asked about whom the believed handshake claims to come from. -/
theorem consulted_respond_iff (hsteady : source.IsSteady) {identity : Identity} :
    (node.respond admission timestamp source sink).consulted = some identity ↔
      ∃ handshake rest, node.Believes source.unread handshake rest ∧
        identity = handshake.claim.identity := by
  constructor
  · intro hconsulted
    obtain ⟨cause, next, -, heq⟩ | ⟨met, next, hreceive, ⟨cause, -, heq⟩ | ⟨-, heq⟩⟩ :=
      node.respond_cases admission timestamp source sink
    · rw [heq] at hconsulted
      exact absurd hconsulted nofun
    all_goals
      rw [heq] at hconsulted
      obtain rfl : met = identity := Option.some.inj hconsulted
      obtain ⟨handshake, hbelieves, hidentity⟩ := believes_of_receive hsteady hreceive
      exact ⟨handshake, next.unread, hbelieves, hidentity⟩
  · rintro ⟨handshake, rest, hbelieves, rfl⟩
    obtain ⟨next, hreceive, -, -⟩ := receive_of_believes hsteady hbelieves
    exact (respond_of_receive hreceive).1

/-- A byte is sent only to whom a believed handshake comes from and the admission check accepts. -/
theorem admits_of_sent_ne_nil (hsteady : source.IsSteady)
    (hsent : (node.respond admission timestamp source sink).sent ≠ []) :
    ∃ handshake rest, node.Believes source.unread handshake rest ∧
      admission handshake.claim.identity = .ok () := by
  obtain ⟨cause, next, -, heq⟩ | ⟨met, next, hreceive, ⟨cause, -, heq⟩ | ⟨hadmission, -⟩⟩ :=
    node.respond_cases admission timestamp source sink
  · exact absurd (heq ▸ rfl) hsent
  · exact absurd (heq ▸ rfl) hsent
  · obtain ⟨handshake, hbelieves, rfl⟩ := believes_of_receive hsteady hreceive
    exact ⟨handshake, next.unread, hbelieves, hadmission⟩

theorem leaves_respond (hsteady : source.IsSteady) {handshake : Handshake} {rest : Bytes}
    (hbelieves : node.Believes source.unread handshake rest) :
    Leaves (node.respond admission timestamp source sink) rest := by
  obtain ⟨next, hreceive, hrest, hnext⟩ := receive_of_believes hsteady hbelieves
  have hsource : (node.respond admission timestamp source sink).source = next :=
    (respond_of_receive hreceive).2
  exact leaves_of_steady (hsource ▸ hnext) (hsource ▸ hrest)

theorem result_respond_eq_ok_iff (hkey : node.key.IsMatched) (hsteady : source.IsSteady)
    (hwilling : sink.IsWilling) {identity : Identity} :
    (node.respond admission timestamp source sink).result = .ok identity ↔
      ∃ handshake rest, node.Believes source.unread handshake rest ∧
        admission handshake.claim.identity = .ok () ∧ identity = handshake.claim.identity := by
  constructor
  · intro hresult
    obtain ⟨cause, next, -, heq⟩ | ⟨met, next, hreceive, ⟨cause, -, heq⟩ | ⟨hadmission, heq⟩⟩ :=
      node.respond_cases admission timestamp source sink
    · rw [heq] at hresult
      exact absurd hresult nofun
    · rw [heq] at hresult
      exact absurd hresult nofun
    · rw [heq, (Handshake.send_willing (length_encode_build_le hkey timestamp) hwilling).1]
        at hresult
      obtain rfl : met = identity := Except.ok.inj hresult
      obtain ⟨handshake, hbelieves, rfl⟩ := believes_of_receive hsteady hreceive
      exact ⟨handshake, next.unread, hbelieves, hadmission, rfl⟩
  · rintro ⟨handshake, rest, hbelieves, hadmission, rfl⟩
    obtain ⟨next, hreceive, -, -⟩ := receive_of_believes hsteady hbelieves
    rw [respond_of_admitted hreceive hadmission,
      (Handshake.send_willing (length_encode_build_le hkey timestamp) hwilling).1]
    rfl

end Accepting

section Dialing

variable {timestamp : Int64} {source : Source} {sink : Sink}

/-- The dialing side sends its handshake and then receives that of the other side. -/
theorem initiate_willing (hkey : node.key.IsMatched) (hwilling : sink.IsWilling) :
    node.initiate timestamp source sink =
      { result := (node.receive source).1
        sent := (node.build timestamp).bytes
        source := (node.receive source).2 } := by
  obtain ⟨hsend, htaken⟩ :=
    Handshake.send_willing (length_encode_build_le hkey timestamp) hwilling
  rw [initiate]
  simp only [hsend, htaken]

theorem result_initiate_eq_ok_iff (hkey : node.key.IsMatched) (hsteady : source.IsSteady)
    (hwilling : sink.IsWilling) {identity : Identity} :
    (node.initiate timestamp source sink).result = .ok identity ↔
      ∃ handshake rest, node.Believes source.unread handshake rest ∧
        identity = handshake.claim.identity := by
  rw [initiate_willing hkey hwilling]
  constructor
  · intro hresult
    obtain ⟨handshake, hbelieves, hidentity⟩ :=
      believes_of_receive hsteady (Prod.ext hresult rfl)
    exact ⟨handshake, _, hbelieves, hidentity⟩
  · rintro ⟨handshake, rest, hbelieves, rfl⟩
    obtain ⟨next, hreceive, -, -⟩ := receive_of_believes hsteady hbelieves
    rw [hreceive]

theorem leaves_initiate (hkey : node.key.IsMatched) (hsteady : source.IsSteady)
    (hwilling : sink.IsWilling) {handshake : Handshake} {rest : Bytes}
    (hbelieves : node.Believes source.unread handshake rest) :
    Leaves (node.initiate timestamp source sink) rest := by
  obtain ⟨next, hreceive, hrest, hnext⟩ := receive_of_believes hsteady hbelieves
  rw [initiate_willing hkey hwilling, hreceive]
  exact leaves_of_steady hnext hrest

end Dialing

/-- **Whom a node meets**: exactly those whose believed handshake its stream starts with.  The
accepting side asks about nobody else, sends nothing unless the admission check accepts, and leaves
what follows the handshake; so does the dialing side, which asks nobody. -/
theorem meets_iff_believes (hkey : node.key.IsMatched) (timestamp : Int64) {source : Source}
    (hsteady : source.IsSteady) :
    (∀ (admission : Identity → Except NetError Unit) (sink : Sink),
      let meeting := node.respond admission timestamp source sink
      (∀ identity, meeting.consulted = some identity ↔
        ∃ handshake rest, node.Believes source.unread handshake rest ∧
          identity = handshake.claim.identity) ∧
      (meeting.sent ≠ [] → ∃ handshake rest, node.Believes source.unread handshake rest ∧
        admission handshake.claim.identity = .ok ()) ∧
      (∀ handshake rest, node.Believes source.unread handshake rest → Leaves meeting rest) ∧
      (sink.IsWilling → ∀ identity, meeting.result = .ok identity ↔
        ∃ handshake rest, node.Believes source.unread handshake rest ∧
          admission handshake.claim.identity = .ok () ∧ identity = handshake.claim.identity)) ∧
    ∀ sink : Sink, sink.IsWilling →
      let meeting := node.initiate timestamp source sink
      (∀ identity, meeting.result = .ok identity ↔
        ∃ handshake rest, node.Believes source.unread handshake rest ∧
          identity = handshake.claim.identity) ∧
      ∀ handshake rest, node.Believes source.unread handshake rest → Leaves meeting rest := by
  refine ⟨fun admission sink => ⟨?_, ?_, ?_, ?_⟩, fun sink hwilling => ⟨?_, ?_⟩⟩
  · exact fun identity => consulted_respond_iff hsteady
  · exact admits_of_sent_ne_nil hsteady
  · exact fun handshake rest => leaves_respond hsteady
  · exact fun hwilling identity => result_respond_eq_ok_iff hkey hsteady hwilling
  · exact fun identity => result_initiate_eq_ok_iff hkey hsteady hwilling
  · exact fun handshake rest => leaves_initiate hkey hsteady hwilling

/-- The second node meets the first one and leaves the byte that follows its handshake. -/
theorem meets_iff_believes_first :
    second.key.IsMatched ∧ (Source.ofBytes ((first.build 0).bytes ++ [0])).IsSteady ∧
      let meeting := second.respond (fun _ => .ok ()) 0
        (.ofBytes ((first.build 0).bytes ++ [0])) {}
      meeting.consulted = some first.identity ∧ meeting.result = .ok first.identity ∧
        Leaves meeting [0] := by
  have hsteady : (Source.ofBytes ((first.build 0).bytes ++ [0])).IsSteady :=
    Source.isSteady_ofBytes (List.append_ne_nil_of_right_ne_nil _ (List.cons_ne_nil 0 []))
  have hbelieves : second.Believes (Source.ofBytes ((first.build 0).bytes ++ [0])).unread
      (first.build 0) [0] := by
    rw [Source.unread_ofBytes]
    exact believes_build isMatched_first publicKey_first_ne rfl isSigned_build_first [0]
  obtain ⟨hconsulted, -, hleaves, hresult⟩ :=
    (meets_iff_believes isMatched_second 0 hsteady).1 (fun _ => .ok ()) {}
  have hidentity := first.identity_build 0
  exact ⟨isMatched_second, hsteady, (hconsulted _).2 ⟨_, _, hbelieves, hidentity.symm⟩,
    (hresult Sink.isWilling_empty _).2 ⟨_, _, hbelieves, rfl, hidentity.symm⟩,
    hleaves _ _ hbelieves⟩

end Handshaker

end Overlay
