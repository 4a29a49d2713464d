import Mathlib.Tactic.SplitIfs
import Overlay.Payload.Codec

/-!
# Reading values back

A decoder reads a value back if it gives it from its bytes and leaves whatever
follows them.  Decoders that read their values back do so one after the other,
and the numbers and byte strings of payloads are read back.
-/

namespace Overlay.Payload

/-- A decoder gives a value from its bytes, whatever follows them. -/
def Decoder.Reads {α : Type} (decoder : Decoder α) (bytes : Bytes) (value : α) : Prop :=
  ∀ rest : Bytes, decoder (bytes ++ rest) = .ok (value, rest)

namespace Decoder.Reads

variable {α β : Type}

theorem andThen {first : Decoder α} {next : α → Decoder β} {bytes more : Bytes} {a : α} {b : β}
    (hfirst : first.Reads bytes a) (hnext : (next a).Reads more b) :
    (first.andThen next).Reads (bytes ++ more) b := by
  intro rest
  rw [List.append_assoc, Decoder.andThen, hfirst (more ++ rest)]
  exact hnext rest

theorem map {decoder : Decoder α} {bytes : Bytes} {a : α} (hreads : decoder.Reads bytes a)
    (f : α → β) : (decoder.map f).Reads bytes (f a) := by
  intro rest
  rw [Decoder.map, Decoder.andThen, hreads rest]

/-- A payload that is the bytes of a value is decoded to it. -/
theorem decodeAll_eq {decoder : Decoder α} {bytes : Bytes} {a : α}
    (hreads : decoder.Reads bytes a) : decodeAll decoder bytes = .ok a := by
  have hall := hreads []
  rw [List.append_nil] at hall
  rw [decodeAll, hall]

end Decoder.Reads

theorem reads_takeBytes {bytes : Bytes} {count : Nat} (hcount : bytes.length = count) :
    (takeBytes count).Reads bytes bytes := by
  intro rest
  rw [takeBytes, List.take_left' hcount, List.drop_left' hcount, if_pos hcount]

/-! ## Numbers -/

namespace Varint

theorem length_encode_le (n : Nat) : (encode n).length ≤ 9 := by
  rw [encode]
  split
  · exact Nat.le_add_left 1 8
  · split
    · simp [Bytes.length_littleEndian]
    · split <;> simp [Bytes.length_littleEndian]

theorem length_encode_pos (n : Nat) : 0 < (encode n).length := by
  unfold encode
  split_ifs <;> simp

/-- A marker and the bytes that it announces are read back. -/
theorem reads_marked {width : Width} {marker : UInt8} {count n : Nat}
    (hmarker : 251 ≤ marker.toNat) (hfollow : width.follow marker = .ok count)
    (hn : n < Bytes.span count) :
    (decode width).Reads (marker :: Bytes.littleEndian count n) n := by
  intro rest
  have hdigits := reads_takeBytes (Bytes.length_littleEndian count n) rest
  simp only [decode, List.cons_append, hfollow, hdigits, Except.map]
  rw [if_neg (Nat.not_lt.2 hmarker), Bytes.ofLittleEndian_littleEndian count n hn]

/-- A number is read back in every width that has room for it. -/
theorem reads_encode (width : Width) {n : Nat} (hn : n < Bytes.span width.byteCount) :
    (decode width).Reads (encode n) n := by
  rw [encode]
  split
  · -- one byte
    next hsmall =>
      intro rest
      have hbyte : (UInt8.ofNat n).toNat = n := by
        rw [UInt8.toNat_ofNat']
        omega
      simp only [decode, List.cons_append, List.nil_append, hbyte, if_pos hsmall]
  · split
    · next hshort =>
        refine reads_marked (by decide) ?_ hshort
        cases width <;> rfl
    · next hlong =>
        split
        · next hshort =>
            refine reads_marked (by decide) ?_ hshort
            cases width with
            | bits16 => exact absurd hn hlong
            | bits32 => rfl
            | bits64 => rfl
        · next hlonger =>
            cases width with
            | bits16 => exact absurd hn hlong
            | bits32 => exact absurd hn hlonger
            | bits64 => exact reads_marked (by decide) rfl hn

theorem unzigzag_zigzag (n : Int) : unzigzag (zigzag n) = n := by
  unfold unzigzag zigzag
  split <;> split <;> omega

theorem zigzag_lt (n : Int64) : zigzag n.toInt < Bytes.span 8 := by
  have hlow := n.le_toInt
  have hhigh := n.toInt_lt
  have hspan : Bytes.span 8 = 18446744073709551616 := rfl
  unfold zigzag
  split <;> omega

end Varint

theorem reads_encodeUInt16 (n : UInt16) : decodeUInt16.Reads (encodeUInt16 n) n := by
  have hreads := (Varint.reads_encode .bits16 n.toNat_lt).map UInt16.ofNat
  rwa [UInt16.ofNat_toNat] at hreads

theorem reads_encodeUInt32 (n : UInt32) : decodeUInt32.Reads (encodeUInt32 n) n := by
  have hreads := (Varint.reads_encode .bits32 n.toNat_lt).map UInt32.ofNat
  rwa [UInt32.ofNat_toNat] at hreads

theorem reads_encodeInt64 (n : Int64) : decodeInt64.Reads (encodeInt64 n) n := by
  intro rest
  rw [decodeInt64, encodeInt64, Varint.reads_encode .bits64 (Varint.zigzag_lt n) rest]
  simp only [Varint.unzigzag_zigzag, Int64.ofInt_toInt]

/-! ## Byte strings -/

/-- A byte string is read back if its length is a number of 64 bits. -/
theorem reads_encodeBytes {bytes : Bytes} (hbytes : bytes.length < Bytes.span 8) :
    decodeBytes.Reads (encodeBytes bytes) bytes :=
  (Varint.reads_encode .bits64 hbytes).andThen (reads_takeBytes rfl)

theorem length_encodeBytes_le (bytes : Bytes) : (encodeBytes bytes).length ≤ bytes.length + 9 := by
  have hvarint := Varint.length_encode_le bytes.length
  rw [encodeBytes, List.length_append]
  omega

end Overlay.Payload
