import Overlay.Proofs.Wire.Reading

/-!
# The grammar of frames

Six bytes declare a type, a chunk flag and a length.  A header that breaks a
rule is refused before anything behind it is read, content that stops short
runs into the end of the stream, and all other content is a frame.  The bytes
of a frame that was read are those it was read from, except that the mark of a
last chunk is written as 1 whatever it was.
-/

namespace Overlay.Wire.Frame

/-- The first six bytes of a byte string declare a type, a chunk flag and a length. -/
structure Declares (input : Bytes) (tag flag : UInt8) (length : Nat) (rest : Bytes) : Prop where
  input_eq : input = header tag flag length ++ rest
  length_lt : length < Bytes.span 4

/-- A header keeps the rules: its flag is 0 or 1, and the declared length is neither more than a
frame may have nor less than the header of a chunk. -/
def Admissible (flag : UInt8) (length : Nat) : Prop :=
  length ≤ maxFrameLength ∧ (flag = 0 ∨ flag = 1 ∧ chunkHeaderLength ≤ length)

/-- The rule that a header breaks, the first one if there are several. -/
inductive Malformed (flag : UInt8) (length : Nat) : ProtocolFault → Prop
  | unknownFlag (hzero : flag ≠ 0) (hone : flag ≠ 1) :
      Malformed flag length (.unknownFlag flag.toNat)
  | tooLong (hflag : flag = 0 ∨ flag = 1) (hlong : maxFrameLength < length) :
      Malformed flag length (.declaredTooLong length)
  | tooShort (hflag : flag = 1) (hshort : length < chunkHeaderLength) :
      Malformed flag length (.chunkTooShort length)

/-- The content of a frame, with the mark of a last chunk as 0 or 1: the byte behind the
position. -/
def plainContent (flag : UInt8) (content : Bytes) : Bytes :=
  if flag = 1 then content.modify 4 fun mark => if mark = 0 then 0 else 1 else content

/-! ## Headers -/

theorem exists_declares {input : Bytes} (hlong : headerLength ≤ input.length) :
    ∃ (tag flag : UInt8) (length : Nat) (rest : Bytes), Declares input tag flag length rest := by
  match input, hlong with
  | tag :: flag :: a :: b :: c :: d :: rest, _ =>
      refine ⟨tag, flag, Bytes.ofLittleEndian [a, b, c, d], rest, ?_,
        Bytes.ofLittleEndian_lt [a, b, c, d]⟩
      have hdigits : Bytes.littleEndian 4 (Bytes.ofLittleEndian [a, b, c, d]) = [a, b, c, d] :=
        Bytes.littleEndian_ofLittleEndian [a, b, c, d]
      rw [header, hdigits]
      rfl

/-- A byte string declares one thing. -/
theorem Declares.unique {input rest rest' : Bytes} {tag tag' flag flag' : UInt8}
    {length length' : Nat} (hdeclares : Declares input tag flag length rest)
    (hother : Declares input tag' flag' length' rest') :
    tag = tag' ∧ flag = flag' ∧ length = length' ∧ rest = rest' := by
  have hsame := hdeclares.input_eq.symm.trans hother.input_eq
  obtain ⟨hheader, hrest⟩ := List.append_inj hsame (by simp only [length_header])
  simp only [header, List.cons.injEq] at hheader
  obtain ⟨htag, hflag, hdigits⟩ := hheader
  have hlength := congrArg Bytes.ofLittleEndian hdigits
  rw [Bytes.ofLittleEndian_littleEndian 4 length hdeclares.length_lt,
    Bytes.ofLittleEndian_littleEndian 4 length' hother.length_lt] at hlength
  exact ⟨htag, hflag, hlength, hrest⟩

theorem admissible_or_malformed (flag : UInt8) (length : Nat) :
    Admissible flag length ∨ ∃ fault, Malformed flag length fault := by
  by_cases hflag : flag = 0 ∨ flag = 1
  · by_cases hlong : maxFrameLength < length
    · exact Or.inr ⟨_, .tooLong hflag hlong⟩
    · by_cases hshort : flag = 1 ∧ length < chunkHeaderLength
      · exact Or.inr ⟨_, .tooShort hshort.1 hshort.2⟩
      · refine Or.inl ⟨Nat.not_lt.1 hlong, hflag.imp_right fun hone => ⟨hone, ?_⟩⟩
        exact Nat.not_lt.1 fun hless => hshort ⟨hone, hless⟩
  · rw [not_or] at hflag
    exact Or.inr ⟨_, .unknownFlag hflag.1 hflag.2⟩

/-! ## Content -/

/-- The word of four bytes has those bytes. -/
private theorem littleEndian_word {digits : Bytes} (hdigits : digits.length = 4) :
    Bytes.littleEndian 4 (UInt32.ofNat (Bytes.ofLittleEndian digits)).toNat = digits := by
  have hlt : Bytes.ofLittleEndian digits < 2 ^ 32 := by
    have hspan := Bytes.ofLittleEndian_lt digits
    rw [hdigits] at hspan
    exact hspan
  rw [UInt32.toNat_ofNat_of_lt' hlt, ← hdigits, Bytes.littleEndian_ofLittleEndian]

/-- The header of a chunk and its data, taken apart and put together. -/
private theorem exists_chunk {content : Bytes} (hroom : chunkHeaderLength ≤ content.length) :
    ∃ (position total : Bytes) (mark : UInt8) (data : Bytes), position.length = 4 ∧
      total.length = 4 ∧ content = (position ++ mark :: total) ++ data := by
  match content, hroom with
  | p :: q :: r :: s :: mark :: t :: u :: v :: w :: data, _ =>
      exact ⟨[p, q, r, s], [t, u, v, w], mark, data, rfl, rfl, rfl⟩

private theorem plainContent_chunk {position : Bytes} (hposition : position.length = 4)
    (mark : UInt8) (rest : Bytes) :
    plainContent 1 (position ++ mark :: rest) =
      position ++ (if mark = 0 then 0 else 1) :: rest := by
  match position, hposition with
  | [p, q, r, s], _ => rfl

/-- A frame was read: it has the length that was declared and the bytes that were there, and what
follows them is still unread. -/
structure IsRead (tag flag : UInt8) (content rest : Bytes) (frame : Frame) (next : Source) :
    Prop where
  bytes_eq : frame.bytes = header tag flag content.length ++ plainContent flag content
  length_eq : frame.length = content.length
  unread_eq : next.unread = rest
  isSteady : next.IsSteady

private theorem readContent_whole {source : Source} (hsteady : source.IsSteady) (tag : UInt8)
    {content rest : Bytes} (hunread : source.unread = content ++ rest) :
    ∃ (frame : Frame) (next : Source),
      readContent tag 0 content.length source = (.ok frame, next) ∧
        IsRead tag 0 content rest frame next := by
  have hcount : content.length ≤ source.unread.length := by
    rw [hunread, List.length_append]
    omega
  obtain ⟨next, hread, hnext, hsteadyNext⟩ := Source.readExact_of_le hsteady hcount
  rw [hunread, List.take_left] at hread
  rw [hunread, List.drop_left] at hnext
  have hsize : (Payload.ofBytes content).size = content.length := by
    rw [← Payload.length_bytes, Payload.bytes_ofBytes]
  refine ⟨.whole ⟨tag, .ofBytes content⟩, next, ?_, ?_, hsize, hnext, hsteadyNext⟩
  · rw [readContent, if_pos rfl, hread]
  · rw [bytes, hsize, Payload.bytes_ofBytes]
    rfl

private theorem readContent_chunk {source : Source} (hsteady : source.IsSteady) (tag : UInt8)
    {content rest : Bytes} (hunread : source.unread = content ++ rest)
    (hroom : chunkHeaderLength ≤ content.length) :
    ∃ (frame : Frame) (next : Source),
      readContent tag 1 content.length source = (.ok frame, next) ∧
        IsRead tag 1 content rest frame next := by
  obtain ⟨position, total, mark, data, hposition, htotal, rfl⟩ := exists_chunk hroom
  have hhead : (position ++ mark :: total).length = chunkHeaderLength := by
    simp [hposition, htotal, chunkHeaderLength]
  have hlength : (position ++ mark :: total ++ data).length = data.length + chunkHeaderLength := by
    rw [List.length_append, hhead, Nat.add_comm]
  -- the header of the chunk, and then its data
  rw [List.append_assoc] at hunread
  have hcountHead : chunkHeaderLength ≤ source.unread.length := by
    rw [hunread, List.length_append, hhead]
    omega
  obtain ⟨middle, hreadHead, hmiddle, hsteadyMiddle⟩ :=
    Source.readExact_of_le hsteady hcountHead
  rw [hunread, List.take_left' hhead] at hreadHead
  rw [hunread, List.drop_left' hhead] at hmiddle
  have hcountData : data.length ≤ middle.unread.length := by
    rw [hmiddle, List.length_append]
    omega
  obtain ⟨next, hreadData, hnext, hsteadyNext⟩ :=
    Source.readExact_of_le hsteadyMiddle hcountData
  rw [hmiddle, List.take_left] at hreadData
  rw [hmiddle, List.drop_left] at hnext
  have hsize : (Payload.ofBytes data).size = data.length := by
    rw [← Payload.length_bytes, Payload.bytes_ofBytes]
  have hfirst : (position ++ mark :: total).take 4 = position := List.take_left' hposition
  have hmark : ((position ++ mark :: total).drop 4).headD 0 = mark := by
    rw [List.drop_left' hposition]
    rfl
  have hlast : (position ++ mark :: total).drop 5 = total := by
    rw [← List.drop_drop (i := 1) (j := 4), List.drop_left' hposition]
    rfl
  refine ⟨.chunk {
    tag
    position := UInt32.ofNat (Bytes.ofLittleEndian position)
    isLast := mark != 0
    total := UInt32.ofNat (Bytes.ofLittleEndian total)
    data := .ofBytes data }, next, ?_, ?_, ?_, hnext, hsteadyNext⟩
  · rw [readContent, if_neg (by decide), hlength, if_neg (by omega), Nat.add_sub_cancel, hreadHead]
    simp only [hreadData, hfirst, hmark, hlast]
  · have hmarkByte :
        (if (mark != 0) = true then (1 : UInt8) else 0) = if mark = 0 then 0 else 1 := by
      by_cases hzero : mark = 0 <;> simp [hzero]
    rw [bytes, hsize, hmarkByte, littleEndian_word hposition, littleEndian_word htotal,
      Payload.bytes_ofBytes, hlength, List.append_assoc position, List.cons_append,
      plainContent_chunk hposition]
    simp only [List.append_assoc, List.cons_append]
  · rw [length, hsize, hlength]

/-- Content of the declared length is a frame. -/
theorem readContent_eq_ok {source : Source} (hsteady : source.IsSteady) (tag : UInt8) {flag : UInt8}
    {content rest : Bytes} (hunread : source.unread = content ++ rest)
    (hroom : flag = 0 ∨ flag = 1 ∧ chunkHeaderLength ≤ content.length) :
    ∃ (frame : Frame) (next : Source),
      readContent tag flag content.length source = (.ok frame, next) ∧
        IsRead tag flag content rest frame next := by
  rcases hroom with rfl | ⟨rfl, hroom⟩
  · exact readContent_whole hsteady tag hunread
  · exact readContent_chunk hsteady tag hunread hroom

/-! ## Frames -/

/-- A stream that ends within a header runs into its end. -/
theorem read_headless {source : Source} (hsteady : source.IsSteady)
    (hshort : source.unread.length < headerLength) :
    read source = (.error IoFault.endOfStream.toError, []) := by
  rw [read, Source.readExact_of_lt hsteady hshort]

section Declared

variable {source : Source} {tag flag : UInt8} {length : Nat} {rest : Bytes}

/-- A header that breaks a rule is refused, and nothing behind it is read. -/
theorem read_malformed (hsteady : source.IsSteady)
    (hdeclares : Declares source.unread tag flag length rest) {fault : ProtocolFault}
    (hmalformed : Malformed flag length fault) :
    ∃ next : Source, read source = (.error (.protocol fault), next) ∧ next.unread = rest := by
  obtain ⟨next, hnext, -, hread⟩ :=
    read_header hsteady hdeclares.input_eq hdeclares.length_lt
  refine ⟨next, ?_, hnext⟩
  rw [hread]
  cases hmalformed with
  | unknownFlag hzero hone => rw [if_pos ⟨hzero, hone⟩]
  | tooLong hflag hlong =>
      rw [if_neg fun hbad => hflag.elim hbad.1 hbad.2, if_pos hlong]
  | tooShort hflag hshort =>
      subst hflag
      have hfits : ¬ maxFrameLength < length :=
        Nat.not_lt.2 (Nat.le_trans (Nat.le_of_lt hshort) (by decide))
      rw [if_neg fun hbad => hbad.2 rfl, if_neg hfits, readContent, if_neg (by decide),
        if_pos hshort]

/-- A right header is followed by the content that it declares. -/
private theorem read_admissible (hsteady : source.IsSteady)
    (hdeclares : Declares source.unread tag flag length rest)
    (hadmissible : Admissible flag length) :
    ∃ next : Source, read source = readContent tag flag length next ∧ next.unread = rest ∧
      next.IsSteady :=
  read_of_header hsteady hdeclares.input_eq (hadmissible.2.imp_right fun hchunk => hchunk.1)
    hadmissible.1

/-- A stream that ends within the declared content runs into its end. -/
theorem read_short (hsteady : source.IsSteady)
    (hdeclares : Declares source.unread tag flag length rest)
    (hadmissible : Admissible flag length) (hshort : rest.length < length) :
    read source = (.error IoFault.endOfStream.toError, []) := by
  obtain ⟨next, hread, hnext, hsteadyNext⟩ := read_admissible hsteady hdeclares hadmissible
  rw [hread]
  exact readContent_short hsteadyNext hadmissible.2 (hnext ▸ hshort)

/-- A right header and content of the length that it declares are a frame. -/
theorem read_eq_ok (hsteady : source.IsSteady)
    (hdeclares : Declares source.unread tag flag length rest)
    (hadmissible : Admissible flag length) (hlong : length ≤ rest.length) :
    ∃ (frame : Frame) (next : Source), read source = (.ok frame, next) ∧
      IsRead tag flag (rest.take length) (rest.drop length) frame next := by
  obtain ⟨middle, hread, hmiddle, hsteadyMiddle⟩ := read_admissible hsteady hdeclares hadmissible
  have hlength : (rest.take length).length = length := List.length_take_of_le hlong
  have hsplit : middle.unread = rest.take length ++ rest.drop length := by
    rw [hmiddle, List.take_append_drop]
  have hroom : flag = 0 ∨ flag = 1 ∧ chunkHeaderLength ≤ (rest.take length).length := by
    rw [hlength]
    exact hadmissible.2
  obtain ⟨frame, next, hcontent, hisRead⟩ := readContent_eq_ok hsteadyMiddle tag hsplit hroom
  rw [hlength] at hcontent
  exact ⟨frame, next, hread.trans hcontent, hisRead⟩

end Declared

/-- A failure to read a frame is the end of the stream or a broken rule. -/
theorem cause_of_read {source next : Source} (hsteady : source.IsSteady) {cause : NetError}
    (hread : read source = (.error cause, next)) :
    cause = IoFault.endOfStream.toError ∨
      ∃ (tag flag : UInt8) (length : Nat) (rest : Bytes) (fault : ProtocolFault),
        Declares source.unread tag flag length rest ∧ Malformed flag length fault ∧
          cause = .protocol fault := by
  by_cases hlong : headerLength ≤ source.unread.length
  · obtain ⟨tag, flag, length, rest, hdeclares⟩ := exists_declares hlong
    rcases admissible_or_malformed flag length with hadmissible | ⟨fault, hmalformed⟩
    · by_cases hcontent : length ≤ rest.length
      · obtain ⟨frame, other, hok, -⟩ := read_eq_ok hsteady hdeclares hadmissible hcontent
        rw [hread] at hok
        exact absurd hok nofun
      · have hshort := read_short hsteady hdeclares hadmissible (Nat.lt_of_not_le hcontent)
        exact Or.inl (Except.error.inj (congrArg Prod.fst (hread.symm.trans hshort)))
    · obtain ⟨other, hrefused, -⟩ := read_malformed hsteady hdeclares hmalformed
      have hcause := Except.error.inj (congrArg Prod.fst (hread.symm.trans hrefused))
      exact Or.inr ⟨tag, flag, length, rest, fault, hdeclares, hmalformed, hcause⟩
  · have hshort := read_headless hsteady (Nat.lt_of_not_le hlong)
    exact Or.inl (Except.error.inj (congrArg Prod.fst (hread.symm.trans hshort)))

/-- A frame that is read starts with a right header, and all of its content is there. -/
theorem exists_declares_of_read {source next : Source} (hsteady : source.IsSteady) {frame : Frame}
    (hread : read source = (.ok frame, next)) :
    ∃ (tag flag : UInt8) (length : Nat) (rest : Bytes),
      Declares source.unread tag flag length rest ∧ Admissible flag length ∧
        length ≤ rest.length := by
  have hlong : headerLength ≤ source.unread.length := by
    refine Nat.le_of_not_lt fun hshort => ?_
    rw [read_headless hsteady hshort] at hread
    exact absurd hread nofun
  obtain ⟨tag, flag, length, rest, hdeclares⟩ := exists_declares hlong
  refine ⟨tag, flag, length, rest, hdeclares, ?_⟩
  rcases admissible_or_malformed flag length with hadmissible | ⟨fault, hmalformed⟩
  · refine ⟨hadmissible, Nat.le_of_not_lt fun hshort => ?_⟩
    rw [read_short hsteady hdeclares hadmissible hshort] at hread
    exact absurd hread nofun
  · obtain ⟨other, hrefused, -⟩ := read_malformed hsteady hdeclares hmalformed
    rw [hrefused] at hread
    exact absurd hread nofun

/-- A whole frame is read from its bytes. -/
theorem unread_of_read_whole {source next : Source} (hsteady : source.IsSteady) {message : Message}
    (hread : read source = (.ok (.whole message), next)) :
    source.unread = (whole message).bytes ++ next.unread ∧ next.IsSteady := by
  obtain ⟨tag, flag, length, rest, hdeclares, hadmissible, hlong⟩ :=
    exists_declares_of_read hsteady hread
  obtain ⟨frame, other, hother, hisRead⟩ := read_eq_ok hsteady hdeclares hadmissible hlong
  obtain ⟨rfl, rfl⟩ : frame = .whole message ∧ other = next := by
    rw [hread, Prod.mk.injEq, Except.ok.injEq] at hother
    exact ⟨hother.1.symm, hother.2.symm⟩
  have hbytes := hisRead.bytes_eq
  obtain ⟨hheader, -⟩ := List.append_inj hbytes (by simp only [length_header])
  obtain rfl : 0 = flag := by
    simp only [header, List.cons.injEq] at hheader
    exact hheader.2.1
  have hlength : (rest.take length).length = length := List.length_take_of_le hlong
  have hplain : plainContent 0 (rest.take length) = rest.take length := rfl
  refine ⟨?_, hisRead.isSteady⟩
  rw [hbytes, hplain, hisRead.unread_eq, hlength, List.append_assoc, List.take_append_drop,
    hdeclares.input_eq]

/-- A frame that was read can be written, in the bytes that it was read from but for the mark. -/
theorem IsRead.encode_eq {tag flag : UInt8} {content rest : Bytes} {frame : Frame} {next : Source}
    (hread : IsRead tag flag content rest frame next) (hfits : content.length ≤ maxFrameLength) :
    frame.encode = .ok (header tag flag content.length ++ plainContent flag content) := by
  rw [encode_eq_ok_iff, hread.length_eq, hread.bytes_eq]
  exact ⟨hfits, rfl⟩

/-- **Reading undoes writing, and reads the frames and nothing else.**  A frame is read back from
its bytes, whatever follows them.  A stream gives a frame exactly if it starts with a right header
and has all of the content that this declares.  Then just these bytes are taken, and the frame is
written as they are, but for the mark of a last chunk.  A header that breaks a rule is refused
with nothing behind it taken, and every other failure is the end of the stream. -/
theorem read_iff_grammar :
    (∀ (frame : Frame) (written trailer : Bytes) (source : Source),
      frame.encode = .ok written → source.IsSteady → source.unread = written ++ trailer →
        ∃ next : Source, read source = (.ok frame, next) ∧ next.unread = trailer) ∧
    ∀ source : Source, source.IsSteady →
      ((∃ (frame : Frame) (next : Source), read source = (.ok frame, next)) ↔
        ∃ (tag flag : UInt8) (length : Nat) (rest : Bytes),
          Declares source.unread tag flag length rest ∧ Admissible flag length ∧
            length ≤ rest.length) ∧
      (∀ (tag flag : UInt8) (length : Nat) (rest : Bytes),
        Declares source.unread tag flag length rest →
          (∀ (frame : Frame) (next : Source), read source = (.ok frame, next) →
            next.unread = source.unread.drop (headerLength + length) ∧
              frame.encode = .ok
                (header tag flag length ++ plainContent flag (rest.take length))) ∧
          ∀ fault, Malformed flag length fault → ∃ next : Source,
            read source = (.error (.protocol fault), next) ∧
              next.unread = source.unread.drop headerLength) ∧
      ∀ (cause : NetError) (next : Source), read source = (.error cause, next) →
        cause = IoFault.endOfStream.toError ∨
          ∃ (tag flag : UInt8) (length : Nat) (rest : Bytes) (fault : ProtocolFault),
            Declares source.unread tag flag length rest ∧ Malformed flag length fault ∧
              cause = .protocol fault := by
  refine ⟨?_, fun source hsteady => ⟨⟨?_, ?_⟩, ?_, fun _ _ hread => cause_of_read hsteady hread⟩⟩
  · intro frame written trailer source hencode hsteady hunread
    obtain ⟨hfits, rfl⟩ := encode_eq_ok_iff.1 hencode
    obtain ⟨next, hread, hnext, -⟩ := read_bytes frame hfits hsteady hunread
    exact ⟨next, hread, hnext⟩
  · rintro ⟨frame, next, hread⟩
    exact exists_declares_of_read hsteady hread
  · rintro ⟨tag, flag, length, rest, hdeclares, hadmissible, hlong⟩
    obtain ⟨frame, next, hread, -⟩ := read_eq_ok hsteady hdeclares hadmissible hlong
    exact ⟨frame, next, hread⟩
  · intro tag flag length rest hdeclares
    have hrest : source.unread.drop headerLength = rest := by
      rw [hdeclares.input_eq, List.drop_left' (length_header tag flag length)]
    refine ⟨fun frame next hread => ?_, fun fault hmalformed => ?_⟩
    · obtain ⟨_, _, _, _, hother, hadmissible, hlong⟩ := exists_declares_of_read hsteady hread
      obtain ⟨rfl, rfl, rfl, rfl⟩ := hdeclares.unique hother
      obtain ⟨frame', next', hread', hisRead⟩ := read_eq_ok hsteady hdeclares hadmissible hlong
      obtain ⟨rfl, rfl⟩ : frame = frame' ∧ next = next' := by
        rw [hread, Prod.mk.injEq, Except.ok.injEq] at hread'
        exact hread'
      have hlength : (rest.take length).length = length := List.length_take_of_le hlong
      refine ⟨?_, ?_⟩
      · rw [hisRead.unread_eq, ← List.drop_drop, hrest]
      · have hencode := hisRead.encode_eq (by rw [hlength]; exact hadmissible.1)
        rwa [hlength] at hencode
    · obtain ⟨next, hread, hnext⟩ := read_malformed hsteady hdeclares hmalformed
      exact ⟨next, hread, hnext.trans hrest.symm⟩

/-- A chunk of two bytes whose mark is 7, and a byte behind it. -/
def oddlyMarked : Source :=
  .ofBytes [4, 1, 11, 0, 0, 0, 0, 0, 0, 0, 7, 2, 0, 0, 0, 0xaa, 0xbb, 9]

/-- A chunk with an odd mark is read, is written with the mark 1, and then read back. -/
theorem read_iff_grammar_oddlyMarked :
    oddlyMarked.IsSteady ∧
      Declares oddlyMarked.unread 4 1 11 [0, 0, 0, 0, 7, 2, 0, 0, 0, 0xaa, 0xbb, 9] ∧
      ∃ (frame : Frame) (written : Bytes),
        written = [4, 1, 11, 0, 0, 0, 0, 0, 0, 0, 1, 2, 0, 0, 0, 0xaa, 0xbb] ∧
        (∃ next : Source, read oddlyMarked = (.ok frame, next) ∧ next.unread = [9]) ∧
        frame.encode = .ok written ∧ (Source.ofBytes (written ++ [9])).IsSteady ∧
        ∃ next : Source, read (.ofBytes (written ++ [9])) = (.ok frame, next) ∧
          next.unread = [9] := by
  have hsteady : oddlyMarked.IsSteady := Source.isSteady_ofBytes nofun
  have hdeclares : Declares oddlyMarked.unread 4 1 11
      [0, 0, 0, 0, 7, 2, 0, 0, 0, 0xaa, 0xbb, 9] := ⟨rfl, by decide⟩
  obtain ⟨hback, hgrammar⟩ := read_iff_grammar
  obtain ⟨hiff, hdeclared, -⟩ := hgrammar oddlyMarked hsteady
  obtain ⟨frame, next, hread⟩ :=
    hiff.2 ⟨4, 1, 11, _, hdeclares, ⟨by decide, Or.inr ⟨rfl, by decide⟩⟩, by decide⟩
  obtain ⟨hunread, hencode⟩ := (hdeclared 4 1 11 _ hdeclares).1 frame next hread
  have hagain : (Source.ofBytes ([4, 1, 11, 0, 0, 0, 0, 0, 0, 0, 1, 2, 0, 0, 0, 0xaa, 0xbb] ++
      [9])).IsSteady := Source.isSteady_ofBytes nofun
  exact ⟨hsteady, hdeclares, frame, _, rfl, ⟨next, hread, hunread⟩, hencode, hagain,
    hback frame _ [9] _ hencode hagain (Source.unread_ofBytes _)⟩

end Overlay.Wire.Frame
