import Overlay.Wire.Frame

/-!
# Exact reads and frames on a steady stream

A stream is steady if each of its deliveries is some bytes or an interruption.
What is read from a steady stream depends on its unread bytes alone: an exact
read takes as many bytes as it wants or runs into the end, and a frame is read
back from its bytes, whatever follows them.  Bytes that stop within a frame
end in the end-of-stream failure.
-/

namespace Overlay.Wire

/-- A delivery that neither ends a stream nor fails its reader. -/
def Delivery.IsSteady : Delivery → Prop
  | .bytes given => given ≠ []
  | .fault cause => cause.kind = .interrupted

namespace Source

/-- Every delivery of the stream is some bytes or an interruption. -/
def IsSteady (source : Source) : Prop :=
  ∀ delivery ∈ source, delivery.IsSteady

theorem isSteady_nil : IsSteady [] := by
  intro delivery hmem
  exact absurd hmem List.not_mem_nil

theorem isSteady_cons_iff (delivery : Delivery) (source : Source) :
    IsSteady (delivery :: source) ↔ delivery.IsSteady ∧ source.IsSteady := by
  simp only [IsSteady, List.mem_cons, forall_eq_or_imp]

theorem isSteady_ofBytes {bytes : Bytes} (hne : bytes ≠ []) : (ofBytes bytes).IsSteady :=
  (isSteady_cons_iff _ _).2 ⟨hne, isSteady_nil⟩

@[simp] theorem unread_ofBytes (bytes : Bytes) : (ofBytes bytes).unread = bytes := by
  simp [ofBytes, unread]

/-- A stream that delivers at once what bytes there are. -/
def whole (bytes : Bytes) : Source :=
  if bytes = [] then [] else ofBytes bytes

theorem unread_whole (bytes : Bytes) : (whole bytes).unread = bytes := by
  rw [whole]
  split
  · next hempty => exact hempty.symm
  · exact unread_ofBytes bytes

theorem isSteady_whole (bytes : Bytes) : (whole bytes).IsSteady := by
  rw [whole]
  split
  · exact isSteady_nil
  · next hne => exact isSteady_ofBytes hne

/-- What is put back in front of a stream when a delivery holds more than was wanted. -/
theorem unread_leftover (left : Bytes) (source : Source) :
    (if left = [] then source else Delivery.bytes left :: source).unread =
      left ++ source.unread := by
  split
  · next hnil => rw [hnil, List.nil_append]
  · rfl

private theorem steady_leftover (left : Bytes) {source : Source} (hsource : source.IsSteady) :
    (if left = [] then source else Delivery.bytes left :: source).IsSteady := by
  split
  · exact hsource
  · next hleft => exact (isSteady_cons_iff _ _).2 ⟨hleft, hsource⟩

/-- An exact read takes the next bytes of a steady stream that has enough of them. -/
theorem readExact_of_le {source : Source} (hsteady : source.IsSteady) {count : Nat}
    (hcount : count ≤ source.unread.length) :
    ∃ next : Source, source.readExact count = (.ok (source.unread.take count), next) ∧
      next.unread = source.unread.drop count ∧ next.IsSteady := by
  induction source generalizing count with
  | nil =>
      obtain rfl : count = 0 := Nat.le_zero.1 hcount
      exact ⟨[], rfl, rfl, isSteady_nil⟩
  | cons delivery source ih =>
      cases count with
      | zero => exact ⟨delivery :: source, rfl, rfl, hsteady⟩
      | succ count =>
          obtain ⟨hdelivery, hsource⟩ := (isSteady_cons_iff _ _).1 hsteady
          cases delivery with
          | fault fault =>
              have hkind : fault.kind = .interrupted := hdelivery
              obtain ⟨next, hread, hunread, hnext⟩ := ih hsource hcount
              refine ⟨next, ?_, hunread, hnext⟩
              rw [readExact, if_pos hkind, hread]
              rfl
          | bytes bytes =>
              have hbytes : bytes ≠ [] := hdelivery
              simp only [unread, List.length_append] at hcount
              simp only [readExact, unread]
              by_cases hfull : (bytes.take (count + 1)).length = count + 1
              · -- the delivery covers the read
                rw [if_pos hfull]
                have hle : count + 1 ≤ bytes.length := by
                  rw [List.length_take] at hfull
                  omega
                refine ⟨_, ?_, ?_, steady_leftover (bytes.drop (count + 1)) hsource⟩
                · rw [List.take_append_of_le_length hle]
                · rw [unread_leftover, List.drop_append_of_le_length hle]
              · -- the delivery is used up and the read goes on behind it
                have hlt : bytes.length < count + 1 := by
                  rw [List.length_take] at hfull
                  omega
                have htake : bytes.take (count + 1) = bytes := List.take_of_length_le (by omega)
                have hdrop : bytes.drop (count + 1) = [] := List.drop_eq_nil_of_le (by omega)
                rw [if_neg hfull, htake, if_neg hbytes]
                have hmore : count + 1 - bytes.length ≤ (unread source).length := by omega
                obtain ⟨next, hread, hunread, hnext⟩ := ih hsource hmore
                refine ⟨next, ?_, ?_, hnext⟩
                · rw [hread, List.take_append, htake]
                · rw [hunread, List.drop_append, hdrop, List.nil_append]

/-- An exact read that wants more than a steady stream has runs into its end. -/
theorem readExact_of_lt {source : Source} (hsteady : source.IsSteady) {count : Nat}
    (hcount : source.unread.length < count) :
    source.readExact count = (.error .endOfStream, []) := by
  induction source generalizing count with
  | nil =>
      cases count with
      | zero => exact absurd hcount (Nat.not_lt_zero _)
      | succ count => rfl
  | cons delivery source ih =>
      cases count with
      | zero => exact absurd hcount (Nat.not_lt_zero _)
      | succ count =>
          obtain ⟨hdelivery, hsource⟩ := (isSteady_cons_iff _ _).1 hsteady
          cases delivery with
          | fault fault =>
              have hkind : fault.kind = .interrupted := hdelivery
              rw [readExact, if_pos hkind]
              exact ih hsource hcount
          | bytes bytes =>
              have hbytes : bytes ≠ [] := hdelivery
              simp only [unread, List.length_append] at hcount
              have htake : bytes.take (count + 1) = bytes := List.take_of_length_le (by omega)
              have hfull : ¬ bytes.length = count + 1 := by omega
              simp only [readExact, htake]
              rw [if_neg hfull, if_neg hbytes, ih hsource (by omega)]

end Source

namespace Frame

def tag : Frame → UInt8
  | .whole message => message.tag
  | .chunk part => part.tag

def flag : Frame → UInt8
  | .whole _ => 0
  | .chunk _ => 1

/-- The position, the mark of the last one and the total in front of the data of a chunk. -/
def chunkHeader (part : Chunk) : Bytes :=
  Bytes.littleEndian 4 part.position.toNat ++
    (if part.isLast then 1 else 0) :: Bytes.littleEndian 4 part.total.toNat

/-- The bytes of a frame behind its header. -/
def content : Frame → Bytes
  | .whole message => message.payload.bytes
  | .chunk part => chunkHeader part ++ part.data.bytes

theorem length_header (tag flag : UInt8) (length : Nat) :
    (header tag flag length).length = headerLength := by
  simp [header, headerLength, Bytes.length_littleEndian]

theorem length_chunkHeader (part : Chunk) : (chunkHeader part).length = chunkHeaderLength := by
  simp [chunkHeader, chunkHeaderLength, Bytes.length_littleEndian]

theorem bytes_eq (frame : Frame) :
    frame.bytes = header frame.tag frame.flag frame.length ++ frame.content := by
  cases frame with
  | whole message => rfl
  | chunk part => simp [bytes, tag, flag, length, content, chunkHeader]

theorem length_content (frame : Frame) : frame.content.length = frame.length := by
  cases frame with
  | whole message => exact Payload.length_bytes message.payload
  | chunk part =>
      simp only [content, length, List.length_append, length_chunkHeader, Payload.length_bytes]
      omega

theorem length_bytes (frame : Frame) : frame.bytes.length = headerLength + frame.length := by
  rw [bytes_eq, List.length_append, length_header, length_content]

theorem encode_eq_ok_iff {frame : Frame} {written : Bytes} :
    frame.encode = .ok written ↔ frame.length ≤ maxFrameLength ∧ frame.bytes = written := by
  by_cases hfits : frame.length ≤ maxFrameLength <;> simp [encode, hfits]

/-- What is read behind a header, whether it can be right or not. -/
theorem read_header {source : Source} (hsteady : source.IsSteady) {tag flag : UInt8}
    {length : Nat} {rest : Bytes} (hunread : source.unread = header tag flag length ++ rest)
    (hdeclared : length < Bytes.span 4) :
    ∃ next : Source, next.unread = rest ∧ next.IsSteady ∧
      read source =
        if flag ≠ 0 ∧ flag ≠ 1 then (.error (.protocol (.unknownFlag flag.toNat)), next)
        else if maxFrameLength < length then (.error (.protocol (.declaredTooLong length)), next)
        else readContent tag flag length next := by
  have hlong : headerLength ≤ source.unread.length := by
    rw [hunread, List.length_append, length_header]
    omega
  obtain ⟨next, hread, hnext, hsteadyNext⟩ := Source.readExact_of_le hsteady hlong
  have htake : source.unread.take headerLength = header tag flag length := by
    rw [hunread, List.take_left' (length_header tag flag length)]
  have hdrop : source.unread.drop headerLength = rest := by
    rw [hunread, List.drop_left' (length_header tag flag length)]
  have hlength : Bytes.ofLittleEndian ((header tag flag length).drop 2) = length :=
    Bytes.ofLittleEndian_littleEndian 4 length hdeclared
  refine ⟨next, hnext.trans hdrop, hsteadyNext, ?_⟩
  rw [read, hread, htake]
  simp only [hlength]
  rfl

/-- A right header is followed by the reading of the content that it declares. -/
theorem read_of_header {source : Source} (hsteady : source.IsSteady) {tag flag : UInt8}
    {length : Nat} {rest : Bytes} (hunread : source.unread = header tag flag length ++ rest)
    (hflag : flag = 0 ∨ flag = 1) (hlength : length ≤ maxFrameLength) :
    ∃ next : Source, read source = readContent tag flag length next ∧
      next.unread = rest ∧ next.IsSteady := by
  -- a length that is allowed survives its 32 bits
  have hdeclared : length < Bytes.span 4 := Nat.lt_of_le_of_lt hlength (by decide)
  obtain ⟨next, hnext, hsteadyNext, hread⟩ := read_header hsteady hunread hdeclared
  have hgood : ¬ (flag ≠ 0 ∧ flag ≠ 1) := by
    rintro ⟨hzero, hone⟩
    exact hflag.elim hzero hone
  refine ⟨next, ?_, hnext, hsteadyNext⟩
  rw [hread, if_neg hgood, if_neg (Nat.not_lt.2 hlength)]

/-- The content of a frame is read back, whatever follows it. -/
theorem readContent_content (frame : Frame) {source : Source} (hsteady : source.IsSteady)
    {rest : Bytes} (hunread : source.unread = frame.content ++ rest) :
    ∃ next : Source, readContent frame.tag frame.flag frame.length source = (.ok frame, next) ∧
      next.unread = rest ∧ next.IsSteady := by
  cases frame with
  | whole message =>
      have hlength : message.payload.bytes.length = message.payload.size :=
        Payload.length_bytes message.payload
      have hlong : message.payload.size ≤ source.unread.length := by
        rw [hunread, List.length_append, length_content]
        exact Nat.le_add_right _ _
      obtain ⟨next, hread, hnext, hsteadyNext⟩ := Source.readExact_of_le hsteady hlong
      refine ⟨next, ?_, ?_, hsteadyNext⟩
      · simp only [readContent, flag, tag, length, if_pos, hread]
        rw [hunread, content, List.take_left' hlength, Payload.ofBytes_bytes]
      · rw [hnext, hunread, content, List.drop_left' hlength]
  | chunk part =>
      have hunread' : source.unread = chunkHeader part ++ (part.data.bytes ++ rest) := by
        rw [hunread, content, List.append_assoc]
      have hlong : chunkHeaderLength ≤ source.unread.length := by
        rw [hunread', List.length_append, length_chunkHeader]
        exact Nat.le_add_right _ _
      obtain ⟨middle, hhead, hmiddle, hsteadyMiddle⟩ := Source.readExact_of_le hsteady hlong
      rw [hunread', List.take_left' (length_chunkHeader part)] at hhead
      rw [hunread', List.drop_left' (length_chunkHeader part)] at hmiddle
      have hdata : part.data.bytes.length = part.data.size := Payload.length_bytes part.data
      have hlongData : part.data.size ≤ middle.unread.length := by
        rw [hmiddle, List.length_append, hdata]
        exact Nat.le_add_right _ _
      obtain ⟨next, hread, hnext, hsteadyNext⟩ := Source.readExact_of_le hsteadyMiddle hlongData
      rw [hmiddle, List.take_left' hdata] at hread
      rw [hmiddle, List.drop_left' hdata] at hnext
      have hposition : Bytes.ofLittleEndian ((chunkHeader part).take 4) = part.position.toNat :=
        Bytes.ofLittleEndian_littleEndian 4 _ part.position.toNat_lt
      have htotal : Bytes.ofLittleEndian ((chunkHeader part).drop 5) = part.total.toNat :=
        Bytes.ofLittleEndian_littleEndian 4 _ part.total.toNat_lt
      have hlast : (((chunkHeader part).drop 4).headD 0 != 0) = part.isLast := by
        cases hisLast : part.isLast <;> simp [chunkHeader, hisLast, Bytes.littleEndian]
      refine ⟨next, ?_, hnext, hsteadyNext⟩
      simp only [readContent, flag, tag, length, Nat.add_sub_cancel, hhead, hread, hposition,
        htotal, hlast]
      rw [if_neg (by decide), if_neg (by omega), Payload.ofBytes_bytes]
      simp

/-- A frame is read back from its bytes, whatever follows them. -/
theorem read_bytes (frame : Frame) (hfits : frame.length ≤ maxFrameLength) {source : Source}
    (hsteady : source.IsSteady) {rest : Bytes} (hunread : source.unread = frame.bytes ++ rest) :
    ∃ next : Source, read source = (.ok frame, next) ∧ next.unread = rest ∧ next.IsSteady := by
  have hflag : frame.flag = 0 ∨ frame.flag = 1 := by
    cases frame with
    | whole message => exact Or.inl rfl
    | chunk part => exact Or.inr rfl
  have hsplit : source.unread =
      header frame.tag frame.flag frame.length ++ (frame.content ++ rest) := by
    rw [hunread, bytes_eq, List.append_assoc]
  obtain ⟨middle, hread, hmiddle, hsteadyMiddle⟩ := read_of_header hsteady hsplit hflag hfits
  obtain ⟨next, hcontent, hnext, hsteadyNext⟩ := readContent_content frame hsteadyMiddle hmiddle
  exact ⟨next, hread.trans hcontent, hnext, hsteadyNext⟩

/-- Content that stops short of its declared length ends in the end-of-stream failure. -/
theorem readContent_short {source : Source} (hsteady : source.IsSteady) {tag flag : UInt8}
    {length : Nat} (hroom : flag = 0 ∨ flag = 1 ∧ chunkHeaderLength ≤ length)
    (hshort : source.unread.length < length) :
    readContent tag flag length source = (.error IoFault.endOfStream.toError, []) := by
  rcases hroom with rfl | ⟨rfl, hroom⟩
  · rw [readContent, if_pos rfl, Source.readExact_of_lt hsteady hshort]
  · rw [readContent, if_neg (by decide), if_neg (Nat.not_lt.2 hroom)]
    by_cases hlong : chunkHeaderLength ≤ source.unread.length
    · obtain ⟨next, hread, hnext, hsteadyNext⟩ := Source.readExact_of_le hsteady hlong
      have hshortData : next.unread.length < length - chunkHeaderLength := by
        rw [hnext, List.length_drop]
        omega
      simp only [hread]
      rw [Source.readExact_of_lt hsteadyNext hshortData]
    · rw [Source.readExact_of_lt hsteady (Nat.lt_of_not_le hlong)]

/-- Content of a frame that stops short ends in the end-of-stream failure. -/
theorem readContent_cut (frame : Frame) {source : Source} (hsteady : source.IsSteady)
    (hshort : source.unread.length < frame.length) :
    readContent frame.tag frame.flag frame.length source =
      (.error IoFault.endOfStream.toError, []) := by
  refine readContent_short hsteady ?_ hshort
  cases frame with
  | whole message => exact Or.inl rfl
  | chunk part => exact Or.inr ⟨rfl, Nat.le_add_left _ _⟩

/-- Bytes that stop within a frame end in the end-of-stream failure. -/
theorem read_cut (frame : Frame) (hfits : frame.length ≤ maxFrameLength) {source : Source}
    (hsteady : source.IsSteady) (hstarts : source.unread <+: frame.bytes)
    (hcut : source.unread.length < frame.bytes.length) :
    read source = (.error IoFault.endOfStream.toError, []) := by
  by_cases hlong : headerLength ≤ source.unread.length
  · -- the header is there, and the content stops short
    have hflag : frame.flag = 0 ∨ frame.flag = 1 := by
      cases frame with
      | whole message => exact Or.inl rfl
      | chunk part => exact Or.inr rfl
    obtain ⟨rest, hrest⟩ : ∃ rest, source.unread =
        header frame.tag frame.flag frame.length ++ rest := by
      refine List.prefix_of_prefix_length_le ?_ hstarts ?_ |>.imp fun _ h => h.symm
      · rw [bytes_eq]
        exact List.prefix_append _ _
      · rw [length_header]
        exact hlong
    obtain ⟨middle, hread, hmiddle, hsteadyMiddle⟩ := read_of_header hsteady hrest hflag hfits
    rw [hread]
    refine readContent_cut frame hsteadyMiddle ?_
    rw [hrest, List.length_append, length_header, length_bytes] at hcut
    rw [hmiddle]
    omega
  · rw [read, Source.readExact_of_lt hsteady (Nat.lt_of_not_le hlong)]

end Frame

end Overlay.Wire
