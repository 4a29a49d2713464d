/-!
# Byte strings

Streams, keys and signatures are lists of bytes.  Message payloads, which may
be large, are packed arrays that are reasoned about through their list of
bytes.
-/

namespace Overlay

/-- A byte string, first byte first. -/
abbrev Bytes := List UInt8

namespace Bytes

/-- The `width` low-order bytes of a number, least significant first. -/
def littleEndian : Nat → Nat → Bytes
  | 0, _ => []
  | width + 1, n => UInt8.ofNat n :: littleEndian width (n / 256)

/-- How many numbers fit in `width` bytes. -/
def span : Nat → Nat
  | 0 => 1
  | width + 1 => 256 * span width

/-- The number whose bytes, least significant first, are given. -/
def ofLittleEndian : Bytes → Nat
  | [] => 0
  | b :: rest => b.toNat + 256 * ofLittleEndian rest

/-- The `width` low-order bytes of a number, most significant first. -/
def bigEndian (width n : Nat) : Bytes :=
  (littleEndian width n).reverse

/-- The number whose bytes, most significant first, are given. -/
def ofBigEndian (bytes : Bytes) : Nat :=
  bytes.foldl (fun n b => 256 * n + b.toNat) 0

def ofText (text : String) : Bytes :=
  text.toUTF8.data.toList

/-- Lexicographic order on byte strings, a proper beginning first. -/
def lt : Bytes → Bytes → Bool
  | _, [] => false
  | [], _ :: _ => true
  | a :: as, b :: bs => a < b || (a == b && lt as bs)

theorem length_littleEndian (width n : Nat) :
    (littleEndian width n).length = width := by
  induction width generalizing n with
  | zero => rfl
  | succ width ih => simp [littleEndian, ih]

theorem ofLittleEndian_littleEndian (width n : Nat) (h : n < span width) :
    ofLittleEndian (littleEndian width n) = n := by
  induction width generalizing n with
  | zero => simp_all [span, littleEndian, ofLittleEndian]
  | succ width ih =>
    have hdiv : n / 256 < span width := by
      simp only [span] at h
      omega
    simp [littleEndian, ofLittleEndian, ih _ hdiv]
    omega

theorem ofLittleEndian_lt (bytes : Bytes) :
    ofLittleEndian bytes < span bytes.length := by
  induction bytes with
  | nil => exact Nat.one_pos
  | cons b rest ih =>
    have hb : b.toNat < 256 := b.toNat_lt
    simp only [ofLittleEndian, List.length_cons, span]
    omega

theorem littleEndian_ofLittleEndian (bytes : Bytes) :
    littleEndian bytes.length (ofLittleEndian bytes) = bytes := by
  induction bytes with
  | nil => rfl
  | cons b rest ih =>
    have hb : b.toNat < 256 := b.toNat_lt
    have hdiv : (b.toNat + 256 * ofLittleEndian rest) / 256 = ofLittleEndian rest := by omega
    have hmod : UInt8.ofNat (b.toNat + 256 * ofLittleEndian rest) = b := by
      apply UInt8.toNat.inj
      simp
    simp [littleEndian, ofLittleEndian, hdiv, hmod, ih]

end Bytes

/-- What a message carries: packed bytes. -/
abbrev Payload := ByteArray

namespace Payload

/-- The bytes of a payload, first byte first. -/
def bytes (payload : Payload) : Bytes :=
  payload.data.toList

/-- Packs a byte string. -/
def ofBytes (bytes : Bytes) : Payload :=
  ⟨bytes.toArray⟩

@[simp] theorem bytes_ofBytes (bytes : Bytes) : (ofBytes bytes).bytes = bytes := by
  simp [Payload.bytes, ofBytes]

@[simp] theorem ofBytes_bytes (payload : Payload) : ofBytes payload.bytes = payload := by
  simp [Payload.bytes, ofBytes]

/-- Payloads are equal if they carry the same bytes. -/
instance : DecidableEq Payload := fun a b =>
  decidable_of_decidable_of_iff (p := a.data = b.data)
    ⟨fun h => by cases a; cases b; cases h; rfl, fun h => h ▸ rfl⟩

theorem length_bytes (payload : Payload) : payload.bytes.length = payload.size :=
  Array.length_toList

theorem bytes_append (a b : Payload) : Payload.bytes (a ++ b) = a.bytes ++ b.bytes := by
  rw [Payload.bytes, ByteArray.data_append, Array.toList_append]
  rfl

theorem ext_bytes {a b : Payload} (h : a.bytes = b.bytes) : a = b := by
  rw [← ofBytes_bytes a, h, ofBytes_bytes]

end Payload

end Overlay
