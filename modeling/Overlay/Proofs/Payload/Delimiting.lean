import Overlay.Proofs.Payload.RoundTrip

/-!
# Where a value ends

A decoder takes some bytes for a value if it gives the value from them,
whatever follows, and runs out of bytes on every proper beginning of them.  A
decoder delimits its values if all that it ever reads are bytes that it takes
so.  The decoders of numbers, texts and byte strings do, and so does what is
read one after the other by decoders that do.

A payload is one value.  So no byte can be cut off from a payload that is read,
and none added to it, without a failure that says what is wrong.
-/

namespace Overlay.Payload

/-- A decoder takes exactly these bytes for a value: it gives the value whatever follows them, and
runs out of bytes if some of them are cut off. -/
structure Decoder.Takes {α : Type} (decoder : Decoder α) (bytes : Bytes) (value : α) : Prop where
  reads : decoder.Reads bytes value
  cut : ∀ front : Bytes, front <+: bytes → front ≠ bytes →
    ∃ missing : Nat, decoder front = .error (.unexpectedEnd missing)

/-- What a decoder reads are bytes that it takes for the value. -/
def Decoder.Delimits {α : Type} (decoder : Decoder α) : Prop :=
  ∀ (bytes : Bytes) (value : α) (rest : Bytes), decoder bytes = .ok (value, rest) →
    ∃ used : Bytes, bytes = used ++ rest ∧ decoder.Takes used value

namespace Decoder

variable {α β : Type}

/-- A decoder that gives a value from nothing takes nothing for it. -/
theorem Takes.of_reads_nil {decoder : Decoder α} {value : α} (hreads : decoder.Reads [] value) :
    decoder.Takes [] value where
  reads := hreads
  cut := by
    intro front hfront hne
    exact absurd (List.prefix_nil.1 hfront) hne

theorem Takes.andThen {first : Decoder α} {next : α → Decoder β} {bytes more : Bytes} {a : α}
    {b : β} (hfirst : first.Takes bytes a) (hnext : (next a).Takes more b) :
    (first.andThen next).Takes (bytes ++ more) b where
  reads := hfirst.reads.andThen hnext.reads
  cut := by
    intro front hfront hne
    unfold Decoder.andThen
    obtain ⟨others, hothers⟩ := hfront
    -- the cut is within what the first decoder takes, or behind it
    rcases List.append_eq_append_iff.1 hothers with ⟨lost, hlost, -⟩ | ⟨kept, hkept, hrest⟩
    · by_cases hall : front = bytes
      · have hstarts : ([] : Bytes) <+: more := List.nil_prefix
        have hmore : ([] : Bytes) ≠ more := by
          intro hnil
          apply hne
          rw [← hnil, List.append_nil, hall]
        obtain ⟨missing, hmissing⟩ := hnext.cut [] hstarts hmore
        have hread := hfirst.reads []
        rw [List.append_nil] at hread
        exact ⟨missing, by simp [hall, hread, hmissing]⟩
      · obtain ⟨missing, hmissing⟩ := hfirst.cut front ⟨lost, hlost.symm⟩ hall
        exact ⟨missing, by simp [hmissing]⟩
    · have hbehind : kept ≠ more := by
        intro hsame
        apply hne
        rw [hkept, hsame]
      obtain ⟨missing, hmissing⟩ := hnext.cut kept ⟨others, hrest.symm⟩ hbehind
      exact ⟨missing, by simp [hkept, hfirst.reads kept, hmissing]⟩

/-- What is read one after the other by decoders that delimit is delimited. -/
theorem Delimits.andThen {first : Decoder α} {next : α → Decoder β} (hfirst : first.Delimits)
    (hnext : ∀ a : α, (next a).Delimits) : (first.andThen next).Delimits := by
  intro bytes value rest hread
  cases hbytes : first bytes with
  | error fault => simp [Decoder.andThen, hbytes] at hread
  | ok result =>
      obtain ⟨a, middle⟩ := result
      have hmiddle : next a middle = .ok (value, rest) := by
        simpa [Decoder.andThen, hbytes] using hread
      obtain ⟨used, rfl, htakes⟩ := hfirst bytes a middle hbytes
      obtain ⟨more, rfl, hmore⟩ := hnext a middle value rest hmiddle
      exact ⟨used ++ more, (List.append_assoc used more rest).symm, htakes.andThen hmore⟩

/-- A decoder that only looks at a value that was read, and takes it or not. -/
theorem delimits_of_still {decoder : Decoder α}
    (hstill : ∀ (bytes : Bytes) (value : α) (rest : Bytes), decoder bytes = .ok (value, rest) →
      bytes = rest ∧ decoder.Reads [] value) : decoder.Delimits := by
  intro bytes value rest hread
  obtain ⟨rfl, hreads⟩ := hstill bytes value rest hread
  exact ⟨[], rfl, .of_reads_nil hreads⟩

theorem Delimits.map {decoder : Decoder α} (hdelimits : decoder.Delimits) (f : α → β) :
    (decoder.map f).Delimits := by
  apply hdelimits.andThen
  intro a
  apply delimits_of_still
  intro bytes value rest hread
  cases hread
  exact ⟨rfl, fun _ => rfl⟩

end Decoder

/-! ## Numbers -/

theorem delimits_takeBytes (count : Nat) : (takeBytes count).Delimits := by
  intro bytes value rest hread
  unfold takeBytes at hread
  by_cases hcount : (bytes.take count).length = count
  · simp only [hcount, if_true, Except.ok.injEq, Prod.mk.injEq] at hread
    obtain ⟨rfl, rfl⟩ := hread
    refine ⟨bytes.take count, (List.take_append_drop count bytes).symm,
      reads_takeBytes hcount, ?_⟩
    intro front hfront hne
    have hshort : front.length < count := by
      rw [← hcount]
      exact Nat.lt_of_le_of_ne hfront.length_le fun hsame => hne (hfront.eq_of_length hsame)
    refine ⟨count - front.length, ?_⟩
    unfold takeBytes
    rw [List.take_of_length_le (Nat.le_of_lt hshort), if_neg (Nat.ne_of_lt hshort)]
  · rw [if_neg hcount] at hread
    exact absurd hread nofun

namespace Varint

/-- Behind a marker stand the bytes that it announces. -/
private theorem decode_marked {width : Width} {marker : UInt8} {count : Nat}
    (hmarker : ¬ marker.toNat < 251) (hfollow : width.follow marker = .ok count) (rest : Bytes) :
    decode width (marker :: rest) = (takeBytes count).map Bytes.ofLittleEndian rest := by
  simp only [decode, if_neg hmarker, hfollow]
  unfold Decoder.map Decoder.andThen
  cases takeBytes count rest <;> rfl

/-- A first byte that settles how to go on. -/
private theorem takes_cons {width : Width} {marker : UInt8} {others : Bytes} {value : Nat}
    {after : Decoder Nat} (hafter : ∀ rest, decode width (marker :: rest) = after rest)
    (htakes : after.Takes others value) : (decode width).Takes (marker :: others) value where
  reads := by
    intro rest
    rw [List.cons_append, hafter]
    exact htakes.reads rest
  cut := by
    intro front hfront hne
    cases front with
    | nil => exact ⟨1, rfl⟩
    | cons first front =>
        obtain ⟨rfl, hbegins⟩ := List.cons_prefix_cons.1 hfront
        have hcut : front ≠ others := by
          intro hsame
          apply hne
          rw [hsame]
        rw [hafter]
        exact htakes.cut front hbegins hcut

theorem delimits_decode (width : Width) : (decode width).Delimits := by
  intro bytes value rest hread
  cases bytes with
  | nil => simp [decode] at hread
  | cons marker others =>
      by_cases hmarker : marker.toNat < 251
      · have hafter : ∀ rest, decode width (marker :: rest) = .ok (marker.toNat, rest) := by
          intro rest
          simp only [decode, if_pos hmarker]
        have hnone : Decoder.Reads (fun rest => .ok (marker.toNat, rest)) [] marker.toNat :=
          fun _ => rfl
        rw [hafter] at hread
        cases hread
        exact ⟨[marker], rfl, takes_cons hafter (.of_reads_nil hnone)⟩
      · cases hfollow : width.follow marker with
        | error found => simp [decode, hmarker, hfollow] at hread
        | ok count =>
            have hafter := decode_marked hmarker hfollow
            rw [hafter] at hread
            obtain ⟨used, rfl, htakes⟩ :=
              (delimits_takeBytes count).map Bytes.ofLittleEndian others value rest hread
            exact ⟨marker :: used, rfl, takes_cons hafter htakes⟩

end Varint

theorem delimits_decodeUInt16 : decodeUInt16.Delimits :=
  (Varint.delimits_decode .bits16).map UInt16.ofNat

theorem delimits_decodeUInt32 : decodeUInt32.Delimits :=
  (Varint.delimits_decode .bits32).map UInt32.ofNat

/-- A signed number is read as an unsigned one, and only faults of its type are named otherwise. -/
theorem delimits_decodeInt64 : decodeInt64.Delimits := by
  intro bytes value rest hread
  unfold decodeInt64 at hread
  cases hbytes : Varint.decode .bits64 bytes with
  | error fault => simp [hbytes] at hread
  | ok result =>
      obtain ⟨n, others⟩ := result
      simp only [hbytes, Except.ok.injEq, Prod.mk.injEq] at hread
      obtain ⟨rfl, rfl⟩ := hread
      obtain ⟨used, rfl, htakes⟩ := Varint.delimits_decode .bits64 bytes n others hbytes
      refine ⟨used, rfl, ?_, ?_⟩
      · intro more
        unfold decodeInt64
        rw [htakes.reads more]
      · intro front hfront hne
        obtain ⟨missing, hmissing⟩ := htakes.cut front hfront hne
        refine ⟨missing, ?_⟩
        unfold decodeInt64
        rw [hmissing]
        rfl

/-! ## Texts and lists -/

theorem delimits_decodeBytes : decodeBytes.Delimits :=
  (Varint.delimits_decode .bits64).andThen delimits_takeBytes

theorem delimits_decodeText : decodeText.Delimits := by
  apply delimits_decodeBytes.andThen
  intro text
  apply Decoder.delimits_of_still
  intro bytes value rest hread
  cases htext : Text.Utf8.decode text with
  | error fault => simp [htext] at hread
  | ok decoded =>
      simp only [htext, Except.ok.injEq, Prod.mk.injEq] at hread
      obtain ⟨rfl, rfl⟩ := hread
      exact ⟨rfl, fun _ => rfl⟩

theorem delimits_decodeItems {α : Type} {decode : Decoder α} (hdelimits : decode.Delimits)
    (count : Nat) : (decodeItems decode count).Delimits := by
  induction count with
  | zero =>
      apply Decoder.delimits_of_still
      intro bytes value rest hread
      cases hread
      exact ⟨rfl, fun _ => rfl⟩
  | succ count ih => exact hdelimits.andThen fun item => ih.map (item :: ·)

theorem delimits_decodeList {α : Type} {decode : Decoder α} (hdelimits : decode.Delimits) :
    (decodeList decode).Delimits :=
  (Varint.delimits_decode .bits64).andThen (delimits_decodeItems hdelimits)

theorem delimits_decodeEndpoint : decodeEndpoint.Delimits :=
  delimits_decodeText.andThen fun _ => delimits_decodeUInt16.map _

/-! ## Whole payloads -/

section Whole

variable {α : Type} {decode : Decoder α} {bytes : Bytes} {value : α}

/-- A payload is read if it is one value and nothing else. -/
theorem deserialize_eq_ok_iff : deserialize decode bytes = .ok value ↔
    decode bytes = .ok (value, []) := by
  unfold deserialize decodeAll
  cases hbytes : decode bytes with
  | error fault => simp [Except.mapError]
  | ok result =>
      obtain ⟨other, rest⟩ := result
      cases rest <;> simp [Except.mapError]

/-- A payload that is read is what the decoder takes for the value. -/
theorem Decoder.Delimits.takes (hdelimits : decode.Delimits)
    (hread : deserialize decode bytes = .ok value) : decode.Takes bytes value := by
  obtain ⟨used, hused, htakes⟩ := hdelimits bytes value [] (deserialize_eq_ok_iff.1 hread)
  rw [List.append_nil] at hused
  rw [hused]
  exact htakes

theorem Decoder.Reads.deserialize_eq (hreads : decode.Reads bytes value) :
    deserialize decode bytes = .ok value := by
  unfold deserialize
  rw [hreads.decodeAll_eq]
  rfl

/-- A payload of which something is cut off ends too early. -/
theorem Decoder.Takes.deserialize_front (htakes : decode.Takes bytes value) {front : Bytes}
    (hfront : front <+: bytes) (hne : front ≠ bytes) : ∃ missing : Nat,
      deserialize decode front = .error (.serialization (.decode (.unexpectedEnd missing))) := by
  obtain ⟨missing, hmissing⟩ := htakes.cut front hfront hne
  refine ⟨missing, ?_⟩
  unfold deserialize decodeAll
  rw [hmissing]
  rfl

/-- A payload behind which something stands is refused for as much as this is. -/
theorem Decoder.Reads.deserialize_append (hreads : decode.Reads bytes value) {extra : Bytes}
    (hextra : extra ≠ []) : deserialize decode (bytes ++ extra) =
      .error (.serialization (.decode (.trailing extra.length))) := by
  unfold deserialize decodeAll
  rw [hreads extra]
  cases extra with
  | nil => exact absurd rfl hextra
  | cons b others => rfl

end Whole

end Overlay.Payload
