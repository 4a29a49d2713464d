import Overlay.Proofs.Handshake.Checking
import Overlay.Proofs.Payload.Formats

/-!
# The shortest payload of a value

Numbers, and with them the lengths of texts, byte strings and lists, are read in forms that are
wider than they need.  They are written in the shortest form.  So of all payloads that are read as a
value, the one that is written is the shortest, and the only one of its length
(`Payload.Format.Canonical`).

What is signed in a handshake is the payload of its claim as it is written, not as it came.  So the
form in which a handshake comes makes no difference to whether it is believed.
-/

namespace Overlay

namespace Payload

/-- A value has a form that is at least as short as the bytes from which it was read, and that is no
other than these if it is as long. -/
structure Decoder.Shortens {α : Type} (decoder : Decoder α) (used short : Bytes) (value : α) :
    Prop where
  reads : decoder.Reads short value
  length_le : short.length ≤ used.length
  eq_of_length : short.length = used.length → short = used

/-- Behind bytes that are written before, what is written of a value is the shortest form of it. -/
def Decoder.ShortestAfter {α : Type} (decoder : Decoder α) (front : Bytes) (encode : α → Bytes) :
    Prop :=
  ∀ (bytes : Bytes) (value : α) (rest : Bytes), decoder bytes = .ok (value, rest) →
    ∃ used short : Bytes, bytes = used ++ rest ∧ encode value = front ++ short ∧
      decoder.Shortens used short value

namespace Decoder

variable {α β : Type} {decoder first : Decoder α} {next : α → Decoder β} {front : Bytes}
  {encode : α → Bytes} {encodeNext : β → Bytes}

theorem Shortens.refl {bytes : Bytes} {value : α} (hreads : decoder.Reads bytes value) :
    decoder.Shortens bytes bytes value :=
  ⟨hreads, Nat.le_refl _, fun _ => rfl⟩

theorem Shortens.andThen {used short more brief : Bytes} {a : α} {b : β}
    (hfirst : first.Shortens used short a) (hnext : (next a).Shortens more brief b) :
    (first.andThen next).Shortens (used ++ more) (short ++ brief) b where
  reads := hfirst.reads.andThen hnext.reads
  length_le := by
    rw [List.length_append, List.length_append]
    exact Nat.add_le_add hfirst.length_le hnext.length_le
  eq_of_length := by
    intro hlength
    rw [List.length_append, List.length_append] at hlength
    have hle := hfirst.length_le
    have hle' := hnext.length_le
    rw [hfirst.eq_of_length (by omega), hnext.eq_of_length (by omega)]

theorem ShortestAfter.andThen (hfirst : first.ShortestAfter front encode)
    (hnext : ∀ a, (next a).ShortestAfter (encode a) encodeNext) :
    (first.andThen next).ShortestAfter front encodeNext := by
  intro bytes b rest hread
  unfold Decoder.andThen at hread
  cases hbytes : first bytes with
  | error fault => simp [hbytes] at hread
  | ok result =>
      obtain ⟨a, middle⟩ := result
      simp only [hbytes] at hread
      obtain ⟨used, short, rfl, ha, hshortens⟩ := hfirst bytes a middle hbytes
      obtain ⟨more, brief, rfl, hb, hbriefly⟩ := hnext a middle b rest hread
      refine ⟨used ++ more, short ++ brief, (List.append_assoc used more rest).symm, ?_,
        hshortens.andThen hbriefly⟩
      rw [hb, ha, List.append_assoc]

/-- What counts is what is written of the values that are read. -/
theorem ShortestAfter.congr (hshortest : decoder.ShortestAfter front encode)
    {other : α → Bytes} (hsame : ∀ bytes value rest, decoder bytes = .ok (value, rest) →
      other value = encode value) : decoder.ShortestAfter front other := by
  intro bytes value rest hread
  rw [hsame bytes value rest hread]
  exact hshortest bytes value rest hread

theorem ShortestAfter.map (hshortest : decoder.ShortestAfter front encode) {f : α → β}
    (hsame : ∀ bytes a rest, decoder bytes = .ok (a, rest) → encodeNext (f a) = encode a) :
    (decoder.map f).ShortestAfter front encodeNext := by
  intro bytes b rest hread
  unfold Decoder.map Decoder.andThen at hread
  cases hbytes : decoder bytes with
  | error fault => simp [hbytes] at hread
  | ok result =>
      obtain ⟨a, after⟩ := result
      simp only [hbytes, Except.ok.injEq, Prod.mk.injEq] at hread
      obtain ⟨rfl, rfl⟩ := hread
      rw [hsame bytes a after hbytes]
      obtain ⟨used, short, hused, ha, hshortens⟩ := hshortest bytes a after hbytes
      exact ⟨used, short, hused, ha, hshortens.reads.map f, hshortens.length_le,
        hshortens.eq_of_length⟩

/-- What is shortest on its own is shortest behind anything. -/
theorem ShortestAfter.behind (hshortest : decoder.ShortestAfter [] encode) (front : Bytes) :
    decoder.ShortestAfter front fun value => front ++ encode value := by
  intro bytes value rest hread
  obtain ⟨used, short, hused, hencode, hshortens⟩ := hshortest bytes value rest hread
  exact ⟨used, short, hused, congrArg (front ++ ·) hencode, hshortens⟩

/-- A decoder that takes nothing has nothing to shorten. -/
theorem shortestAfter_of_still (hstill : ∀ bytes value rest, decoder bytes = .ok (value, rest) →
    bytes = rest ∧ encode value = front ∧ decoder.Reads [] value) :
    decoder.ShortestAfter front encode := by
  intro bytes value rest hread
  obtain ⟨rfl, hencode, hreads⟩ := hstill bytes value rest hread
  exact ⟨[], [], rfl, hencode.trans (List.append_nil front).symm, .refl hreads⟩

end Decoder

/-! ## Numbers -/

theorem takeBytes_eq_ok {count : Nat} {bytes taken rest : Bytes}
    (hread : takeBytes count bytes = .ok (taken, rest)) :
    bytes = taken ++ rest ∧ taken.length = count := by
  unfold takeBytes at hread
  by_cases hcount : (bytes.take count).length = count
  · simp only [hcount, if_true, Except.ok.injEq, Prod.mk.injEq] at hread
    obtain ⟨rfl, rfl⟩ := hread
    exact ⟨(List.take_append_drop count bytes).symm, hcount⟩
  · rw [if_neg hcount] at hread
    exact absurd hread nofun

namespace Varint

/-- A number is one byte, or a marker and the bytes that it announces. -/
theorem decode_cases {width : Width} {bytes : Bytes} {n : Nat} {rest : Bytes}
    (hread : decode width bytes = .ok (n, rest)) :
    (∃ b : UInt8, b.toNat < 251 ∧ bytes = [b] ++ rest ∧ n = b.toNat) ∨
      ∃ (marker : UInt8) (digits : Bytes), bytes = marker :: digits ++ rest ∧
        width.follow marker = .ok digits.length ∧ n = Bytes.ofLittleEndian digits := by
  cases bytes with
  | nil => simp [decode] at hread
  | cons marker others =>
      by_cases hsmall : marker.toNat < 251
      · simp only [decode, hsmall, if_true, Except.ok.injEq, Prod.mk.injEq] at hread
        exact Or.inl ⟨marker, hsmall, by rw [hread.2]; rfl, hread.1.symm⟩
      · simp only [decode, hsmall, if_false] at hread
        cases hfollow : width.follow marker with
        | error found => simp [hfollow] at hread
        | ok count =>
            rw [hfollow] at hread
            cases htaken : takeBytes count others with
            | error fault => simp [htaken, Except.map] at hread
            | ok result =>
                obtain ⟨digits, after⟩ := result
                simp only [htaken, Except.map, Except.ok.injEq, Prod.mk.injEq] at hread
                obtain ⟨rfl, rfl⟩ := hread
                obtain ⟨rfl, rfl⟩ := takeBytes_eq_ok htaken
                exact Or.inr ⟨marker, digits, rfl, hfollow, rfl⟩

theorem follow_cases {width : Width} {marker : UInt8} {count : Nat}
    (hfollow : width.follow marker = .ok count) :
    count ≤ width.byteCount ∧
      (marker = 251 ∧ count = 2 ∨ marker = 252 ∧ count = 4 ∨ marker = 253 ∧ count = 8) := by
  unfold Width.follow at hfollow
  split_ifs at hfollow
  all_goals
    obtain rfl := Except.ok.inj hfollow
    cases width <;> simp_all [Width.byteCount]

theorem span_le_span {count more : Nat} (hle : count ≤ more) :
    Bytes.span count ≤ Bytes.span more := by
  induction hle with
  | refl => exact Nat.le_refl _
  | step _ ih =>
      simp only [Bytes.span]
      omega

/-- A number that is read has room in the width that is read. -/
theorem lt_of_decode {width : Width} {bytes : Bytes} {n : Nat} {rest : Bytes}
    (hread : decode width bytes = .ok (n, rest)) : n < Bytes.span width.byteCount := by
  rcases decode_cases hread with ⟨b, hsmall, -, rfl⟩ | ⟨marker, digits, -, hfollow, rfl⟩
  · have hbytes : Bytes.span 2 ≤ Bytes.span width.byteCount := by
      apply span_le_span
      cases width <;> decide
    have hspan : Bytes.span 2 = 65536 := rfl
    omega
  · have hdigits := Bytes.ofLittleEndian_lt digits
    have hroom := span_le_span (follow_cases hfollow).1
    omega

/-- A number is written with the first marker that has room for it. -/
theorem encode_shortens {marker : UInt8} {digits : Bytes}
    (hform : marker = 251 ∧ digits.length = 2 ∨ marker = 252 ∧ digits.length = 4 ∨
      marker = 253 ∧ digits.length = 8) :
    (encode (Bytes.ofLittleEndian digits)).length ≤ (marker :: digits).length ∧
      ((encode (Bytes.ofLittleEndian digits)).length = (marker :: digits).length →
        encode (Bytes.ofLittleEndian digits) = marker :: digits) := by
  have hlt := Bytes.ofLittleEndian_lt digits
  have hback := Bytes.littleEndian_ofLittleEndian digits
  unfold encode
  rcases hform with ⟨rfl, hlength⟩ | ⟨rfl, hlength⟩ | ⟨rfl, hlength⟩
  all_goals
    rw [hlength] at hlt hback
    split_ifs <;> simp [Bytes.length_littleEndian, hlength, hback]

theorem shortest_decode (width : Width) : (decode width).ShortestAfter [] encode := by
  intro bytes n rest hread
  have hreads := reads_encode width (lt_of_decode hread)
  rcases decode_cases hread with ⟨b, hsmall, hbytes, rfl⟩ | ⟨marker, digits, hbytes, hfollow, rfl⟩
  · have hbyte : encode b.toNat = [b] := by
      unfold encode
      rw [if_pos hsmall, UInt8.ofNat_toNat]
    rw [hbyte] at hreads ⊢
    exact ⟨[b], [b], hbytes, rfl, .refl hreads⟩
  · obtain ⟨hle, heq⟩ := encode_shortens (follow_cases hfollow).2
    exact ⟨marker :: digits, _, hbytes, rfl, hreads, hle, heq⟩

theorem zigzag_unzigzag (n : Nat) : zigzag (unzigzag n) = n := by
  unfold unzigzag zigzag
  split <;> split <;> omega

end Varint

theorem shortest_decodeUInt16 : decodeUInt16.ShortestAfter [] encodeUInt16 := by
  refine (Varint.shortest_decode .bits16).map fun bytes n rest hread => ?_
  unfold encodeUInt16
  rw [UInt16.toNat_ofNat_of_lt' (Varint.lt_of_decode hread)]

theorem shortest_decodeUInt32 : decodeUInt32.ShortestAfter [] encodeUInt32 := by
  refine (Varint.shortest_decode .bits32).map fun bytes n rest hread => ?_
  unfold encodeUInt32
  rw [UInt32.toNat_ofNat_of_lt' (Varint.lt_of_decode hread)]

theorem shortest_decodeInt64 : decodeInt64.ShortestAfter [] encodeInt64 := by
  intro bytes value rest hread
  unfold decodeInt64 at hread
  cases hbytes : Varint.decode .bits64 bytes with
  | error fault => simp [hbytes] at hread
  | ok result =>
      obtain ⟨n, after⟩ := result
      simp only [hbytes, Except.ok.injEq, Prod.mk.injEq] at hread
      obtain ⟨rfl, rfl⟩ := hread
      obtain ⟨used, short, hused, hn, hshortens⟩ :=
        Varint.shortest_decode .bits64 bytes n after hbytes
      -- the number fits in sixty-four bits, so its sign survives
      have hfits : (Int64.ofInt (Varint.unzigzag n)).toInt = Varint.unzigzag n := by
        have hlt : n < 18446744073709551616 := Varint.lt_of_decode hbytes
        apply Int64.toInt_ofInt_of_le
        · unfold Varint.unzigzag
          split <;> omega
        · unfold Varint.unzigzag
          split <;> omega
      have hencode : encodeInt64 (Int64.ofInt (Varint.unzigzag n)) = Varint.encode n := by
        unfold encodeInt64
        rw [hfits, Varint.zigzag_unzigzag]
      have hshort : short = Varint.encode n := hn.symm
      refine ⟨used, short, hused, hencode.trans hn, ?_, hshortens.length_le,
        hshortens.eq_of_length⟩
      rw [hshort, ← hencode]
      exact reads_encodeInt64 _

/-! ## Texts and lists -/

theorem shortest_decodeBytes : decodeBytes.ShortestAfter [] encodeBytes := by
  refine (Varint.shortest_decode .bits64).andThen fun count bytes taken rest hread => ?_
  obtain ⟨hbytes, hcount⟩ := takeBytes_eq_ok hread
  refine ⟨taken, taken, hbytes, ?_, .refl (reads_takeBytes hcount)⟩
  unfold encodeBytes
  rw [hcount]

/-- The text of a byte string has just these bytes. -/
theorem ofText_of_decode {bytes : Bytes} {text : String} (htext : Text.Utf8.decode bytes = .ok text) :
    Bytes.ofText text = bytes := by
  unfold Text.Utf8.decode String.fromUTF8? at htext
  by_cases hvalid : (Payload.ofBytes bytes).IsValidUTF8
  · simp only [dif_pos hvalid, Except.ok.injEq] at htext
    subst htext
    exact Payload.bytes_ofBytes bytes
  · simp [hvalid] at htext

theorem shortest_decodeText : decodeText.ShortestAfter [] encodeText := by
  refine shortest_decodeBytes.andThen fun packed => ?_
  apply Decoder.shortestAfter_of_still
  intro bytes text rest hread
  cases htext : Text.Utf8.decode packed with
  | error fault => simp [htext] at hread
  | ok decoded =>
      simp only [htext, Except.ok.injEq, Prod.mk.injEq] at hread
      obtain ⟨rfl, rfl⟩ := hread
      refine ⟨rfl, ?_, fun _ => rfl⟩
      unfold encodeText
      rw [ofText_of_decode htext]

section Lists

variable {α : Type} {encode : α → Bytes} {decode : Decoder α}

theorem length_of_decodeItems {count : Nat} {bytes : Bytes} {items : List α} {rest : Bytes}
    (hread : decodeItems decode count bytes = .ok (items, rest)) : items.length = count := by
  induction count generalizing bytes items rest with
  | zero =>
      obtain ⟨rfl, -⟩ := Prod.mk.inj (Except.ok.inj hread)
      rfl
  | succ count ih =>
      simp only [decodeItems, Decoder.andThen, Decoder.map] at hread
      cases hfirst : decode bytes with
      | error fault => simp [hfirst] at hread
      | ok result =>
          obtain ⟨item, middle⟩ := result
          simp only [hfirst] at hread
          cases hothers : decodeItems decode count middle with
          | error fault => simp [hothers] at hread
          | ok result =>
              obtain ⟨others, after⟩ := result
              simp only [hothers, Except.ok.injEq, Prod.mk.injEq] at hread
              rw [← hread.1, List.length_cons, ih hothers]

theorem shortest_decodeItems (hshortest : decode.ShortestAfter [] encode) (count : Nat) :
    (decodeItems decode count).ShortestAfter [] (encodeItems encode) := by
  induction count with
  | zero =>
      apply Decoder.shortestAfter_of_still
      intro bytes items rest hread
      cases hread
      exact ⟨rfl, rfl, fun _ => rfl⟩
  | succ count ih =>
      refine hshortest.andThen fun item => (ih.behind (encode item)).map ?_
      intro _ others _ _
      exact List.flatMap_cons

theorem shortest_decodeList (hshortest : decode.ShortestAfter [] encode) :
    (decodeList decode).ShortestAfter [] (encodeList encode) := by
  refine (Varint.shortest_decode .bits64).andThen fun count => ?_
  refine ((shortest_decodeItems hshortest count).behind (Varint.encode count)).congr ?_
  intro bytes items rest hread
  unfold encodeList
  rw [length_of_decodeItems hread]

end Lists

theorem shortest_decodeEndpoint : decodeEndpoint.ShortestAfter [] encodeEndpoint :=
  shortest_decodeText.andThen fun host =>
    (shortest_decodeUInt16.behind (encodeText host)).map fun _ _ _ _ => rfl

/-! ## Formats -/

theorem decodeAll_eq_ok_iff {α : Type} {decode : Decoder α} {bytes : Bytes} {value : α} :
    decodeAll decode bytes = .ok value ↔ deserialize decode bytes = .ok value := by
  unfold deserialize
  cases decodeAll decode bytes <;> simp [Except.mapError]

namespace Format

variable {α : Type} {format : Format α}

/-- Of all payloads that are read as a value, the one that is written is the shortest, and there is
no other of its length. -/
structure Canonical (format : Format α) : Prop where
  deserialize_again : ∀ (bytes : Bytes) (value : α), deserialize format.decode bytes = .ok value →
    deserialize format.decode (format.encode value) = .ok value
  length_encode_le : ∀ (bytes : Bytes) (value : α), deserialize format.decode bytes = .ok value →
    (format.encode value).length ≤ bytes.length
  encode_eq : ∀ (bytes : Bytes) (value : α), deserialize format.decode bytes = .ok value →
    (format.encode value).length = bytes.length → format.encode value = bytes

theorem canonical_of_shortest (hshortest : format.decode.ShortestAfter [] format.encode) :
    format.Canonical := by
  have hforms : ∀ (bytes : Bytes) (value : α), deserialize format.decode bytes = .ok value →
      format.decode.Shortens bytes (format.encode value) value := by
    intro bytes value hread
    obtain ⟨used, short, hused, hshort, hshortens⟩ :=
      hshortest bytes value [] (deserialize_eq_ok_iff.1 hread)
    rw [hused, hshort, List.append_nil, List.nil_append]
    exact hshortens
  exact {
    deserialize_again := fun bytes value hread => (hforms bytes value hread).reads.deserialize_eq
    length_encode_le := fun bytes value hread => (hforms bytes value hread).length_le
    encode_eq := fun bytes value hread => (hforms bytes value hread).eq_of_length }

/-- Values whose shortest payloads are the same are the same. -/
theorem Canonical.eq_of_encode (hcanonical : format.Canonical) {bytes more : Bytes} {value other : α}
    (hread : deserialize format.decode bytes = .ok value)
    (hother : deserialize format.decode more = .ok other)
    (hsame : format.encode value = format.encode other) : value = other := by
  have hvalue := hcanonical.deserialize_again bytes value hread
  rw [hsame, hcanonical.deserialize_again more other hother] at hvalue
  exact (Except.ok.inj hvalue).symm

end Format

end Payload

open Payload

theorem Endpoint.format_canonical : Endpoint.format.Canonical :=
  Format.canonical_of_shortest shortest_decodeEndpoint

theorem PeerRecord.format_canonical : PeerRecord.format.Canonical := by
  apply Format.canonical_of_shortest
  exact shortest_decodeEndpoint.andThen fun endpoint =>
    (shortest_decodeInt64.behind (encodeEndpoint endpoint)).map fun _ _ _ _ => rfl

theorem PeerRequest.format_canonical : PeerRequest.format.Canonical := by
  apply Format.canonical_of_shortest
  exact shortest_decodeUInt16.map fun _ _ _ _ => rfl

theorem PeerList.format_canonical : PeerList.format.Canonical := by
  apply Format.canonical_of_shortest
  exact (shortest_decodeList shortest_decodeEndpoint).map fun _ _ _ _ => rfl

theorem Claim.shortest_decode : Claim.decode.ShortestAfter [] Claim.encode := by
  refine shortest_decodeBytes.andThen fun publicKey => ?_
  refine (shortest_decodeUInt16.behind _).andThen fun port => ?_
  refine (shortest_decodeUInt32.behind _).andThen fun version => ?_
  exact (shortest_decodeInt64.behind _).map fun _ _ _ _ => rfl

theorem Claim.format_canonical : Claim.format.Canonical :=
  Format.canonical_of_shortest Claim.shortest_decode

theorem Handshake.format_canonical : Handshake.format.Canonical := by
  apply Format.canonical_of_shortest
  exact Claim.shortest_decode.andThen fun claim =>
    (shortest_decodeBytes.behind claim.encode).map fun _ _ _ _ => rfl

/-! ## Verdicts -/

namespace Handshake

/-- A handshake that comes in some form can as well come in its shortest one. -/
theorem Opens.shorten {handshake : Handshake} {input rest : Bytes}
    (hopens : handshake.Opens input rest) (after : Bytes) :
    handshake.Opens (handshake.bytes ++ after) after := by
  obtain ⟨payload, -, hlength, hdecode⟩ := hopens
  rw [decodeAll_eq_ok_iff] at hdecode
  have hshort := format_canonical.length_encode_le payload handshake hdecode
  have hagain := format_canonical.deserialize_again payload handshake hdecode
  exact ⟨handshake.encode, rfl, Nat.le_trans hshort hlength, decodeAll_eq_ok_iff.2 hagain⟩

/-- A handshake whose key comes with its length in eight bytes. -/
def stretched (handshake : Handshake) : Bytes :=
  let claim := handshake.claim
  (253 :: Bytes.littleEndian 8 claim.publicKey.length) ++ claim.publicKey ++
    encodeUInt16 claim.port ++ encodeUInt32 claim.version ++ encodeInt64 claim.timestamp ++
      encodeBytes handshake.signature

theorem reads_stretched {handshake : Handshake}
    (hkey : handshake.claim.publicKey.length < Bytes.span 8)
    (hsignature : handshake.signature.length < Bytes.span 8) :
    Handshake.decode.Reads handshake.stretched handshake := by
  have hcount : (Varint.decode .bits64).Reads
      (253 :: Bytes.littleEndian 8 handshake.claim.publicKey.length)
      handshake.claim.publicKey.length := Varint.reads_marked (by decide) rfl hkey
  have hkeyReads : decodeBytes.Reads _ handshake.claim.publicKey :=
    hcount.andThen (reads_takeBytes rfl)
  rw [stretched]
  refine Decoder.Reads.andThen ?_ ((reads_encodeBytes hsignature).map _)
  rw [List.append_assoc, List.append_assoc]
  refine hkeyReads.andThen ?_
  refine (reads_encodeUInt16 handshake.claim.port).andThen ?_
  refine (reads_encodeUInt32 handshake.claim.version).andThen ?_
  exact (reads_encodeInt64 handshake.claim.timestamp).map _

theorem length_stretched {handshake : Handshake} (hkey : handshake.claim.publicKey.length < 251) :
    handshake.stretched.length = handshake.encode.length + 8 := by
  have hcount : (Varint.encode handshake.claim.publicKey.length).length = 1 := by
    unfold Varint.encode
    rw [if_pos hkey]
    rfl
  simp only [stretched, encode, Claim.encode, encodeBytes, List.length_append, List.length_cons,
    Bytes.length_littleEndian, hcount]
  omega

end Handshake

namespace Handshaker

section Stretched

variable {node : Handshaker} (hkey : node.key.IsMatched) (timestamp : Int64)
include hkey

theorem length_stretched : (node.build timestamp).stretched.length =
    (node.build timestamp).encode.length + 8 :=
  Handshake.length_stretched (Nat.lt_of_le_of_lt hkey.length_publicKey_le (by decide))

theorem deserialize_stretched :
    deserialize Handshake.decode (node.build timestamp).stretched = .ok (node.build timestamp) := by
  have hlong : 65 < Bytes.span 8 := by decide
  have hpublic : (node.build timestamp).claim.publicKey.length < Bytes.span 8 :=
    Nat.lt_of_le_of_lt hkey.length_publicKey_le hlong
  have hsignature : (node.build timestamp).signature.length < Bytes.span 8 :=
    Nat.lt_of_le_of_lt (node.key.length_sign_le _) (Nat.lt_of_succ_lt hlong)
  exact (Handshake.reads_stretched hpublic hsignature).deserialize_eq

theorem opens_stretched :
    (node.build timestamp).Opens (Wire.Frame.header MessageKind.handshake.tag 0
      (node.build timestamp).stretched.length ++ (node.build timestamp).stretched ++ []) [] := by
  have hpublic : (node.build timestamp).claim.publicKey.length ≤ 65 := hkey.length_publicKey_le
  have hsigned : (node.build timestamp).signature.length ≤ 64 := node.key.length_sign_le _
  have hlength := length_stretched hkey timestamp
  have hencode := (node.build timestamp).length_encode_le
  have hmax : maxHandshakeLength = 4096 := rfl
  exact ⟨_, rfl, by omega, decodeAll_eq_ok_iff.2 (deserialize_stretched hkey timestamp)⟩

end Stretched

theorem verify_build {node other : Handshaker}
    (hforeign : other.key.publicKey ≠ node.key.publicKey) (hversion : other.version = node.version)
    {timestamp : Int64} (hsigned : (other.build timestamp).isSigned = true) :
    node.verify (other.build timestamp) = .ok other.identity :=
  verify_eq_ok_iff.2 ⟨hforeign, hversion, hsigned, rfl⟩

/-- Of a stream that starts with a handshake, a node receives its verdict on it. -/
theorem receive_fst_of_opens (node : Handshaker) {source : Wire.Source} (hsteady : source.IsSteady)
    {handshake : Handshake} {rest : Bytes} (hopens : handshake.Opens source.unread rest) :
    (node.receive source).1 = node.verify handshake := by
  obtain ⟨next, hreceive, -, -⟩ := Handshake.receive_of_opens hsteady hopens
  rw [receive, hreceive]

end Handshaker

/-- **Reading shortens**: of every kind of payload, what is read is written as a payload that is
read as the same, that is no longer, and that is no other one if it is as long.  So whoever sends a
handshake chooses the form in which it is encoded, but not the verdict: two payloads of the same
handshake get the same one, on their own and on a stream, and so does the shortest of all. -/
theorem reading_shortens :
    (Endpoint.format.Canonical ∧ PeerRecord.format.Canonical ∧ PeerRequest.format.Canonical ∧
      PeerList.format.Canonical ∧ Claim.format.Canonical ∧ Handshake.format.Canonical) ∧
    (∀ (node : Handshaker) (payload other : Bytes) (one two : Handshake),
      deserialize Handshake.decode payload = .ok one →
      deserialize Handshake.decode other = .ok two →
      one.encode = two.encode → node.verify one = node.verify two) ∧
    ∀ (node : Handshaker) (source : Wire.Source) (handshake : Handshake) (rest : Bytes),
      source.IsSteady → handshake.Opens source.unread rest →
      (node.receive source).1 = node.verify handshake ∧
      (∀ (follow : Wire.Source) (after : Bytes), follow.IsSteady →
        handshake.Opens follow.unread after →
        (node.receive follow).1 = (node.receive source).1) ∧
      ∀ after : Bytes, handshake.Opens (handshake.bytes ++ after) after := by
  refine ⟨⟨Endpoint.format_canonical, PeerRecord.format_canonical, PeerRequest.format_canonical,
    PeerList.format_canonical, Claim.format_canonical, Handshake.format_canonical⟩, ?_, ?_⟩
  · intro node payload other one two hone htwo hsame
    rw [Handshake.format_canonical.eq_of_encode hone htwo hsame]
  · intro node source handshake rest hsteady hopens
    have hreceive := node.receive_fst_of_opens hsteady hopens
    refine ⟨hreceive, fun follow after hfollow hagain => ?_, hopens.shorten⟩
    rw [hreceive, node.receive_fst_of_opens hfollow hagain]

/-- The second node meets the first one although the length of its key comes in nine bytes, of which
it needs one. -/
theorem reading_shortens_stretched :
    let greeting := Handshaker.first.build 0
    let source : Wire.Source := .ofBytes
      (Wire.Frame.header MessageKind.handshake.tag 0 greeting.stretched.length ++
        greeting.stretched ++ [])
    source.IsSteady ∧ greeting.Opens source.unread [] ∧
      (Handshaker.second.receive source).1 = .ok Handshaker.first.identity ∧
      deserialize Handshake.decode greeting.stretched = .ok greeting ∧
      greeting.encode.length ≤ greeting.stretched.length ∧
      greeting.encode ≠ greeting.stretched := by
  have hstarts := Handshaker.opens_stretched Handshaker.isMatched_first 0
  have hverify := Handshaker.verify_build Handshaker.publicKey_first_ne rfl
    Handshaker.isSigned_build_first
  have hread := Handshaker.deserialize_stretched Handshaker.isMatched_first 0
  have hlength := Handshaker.length_stretched Handshaker.isMatched_first 0
  have hsteady := Wire.Source.isSteady_ofBytes hstarts.ne_nil
  rw [← Wire.Source.unread_ofBytes (_ ++ [])] at hstarts
  refine ⟨hsteady, hstarts, ?_, hread, ?_, ?_⟩
  · exact (reading_shortens.2.2 Handshaker.second _ _ [] hsteady hstarts).1.trans hverify
  · exact reading_shortens.1.2.2.2.2.2.length_encode_le _ _ hread
  · intro hsame
    rw [← hsame] at hlength
    omega

end Overlay
