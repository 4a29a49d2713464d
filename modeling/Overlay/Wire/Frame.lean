import Overlay.Wire.Stream

/-!
# Frames

A frame is a header of six bytes (message type, chunk flag, little-endian
length) and so many bytes of content.  The content of a chunk starts with its
position, whether it is the last, and the size of the whole message.
-/

namespace Overlay.Wire

/-- The bytes in front of every frame. -/
def headerLength : Nat := 6

/-- The bytes in front of the data of a chunk. -/
def chunkHeaderLength : Nat := 9

structure Message where
  tag : UInt8
  payload : Payload
  deriving DecidableEq

/-- A part of a message that is sent in parts. -/
structure Chunk where
  tag : UInt8
  position : UInt32
  isLast : Bool
  total : UInt32
  data : Payload
  deriving DecidableEq

/-- What is sent as one unit. -/
inductive Frame
  | whole (message : Message)
  | chunk (part : Chunk)
  deriving DecidableEq

namespace Frame

def length : Frame → Nat
  | .whole message => message.payload.size
  | .chunk part => part.data.size + chunkHeaderLength

/-- The six bytes in front of a frame. -/
def header (tag : UInt8) (flag : UInt8) (length : Nat) : Bytes :=
  tag :: flag :: Bytes.littleEndian 4 length

/-- The bytes of a frame, whatever its length. -/
def bytes : Frame → Bytes
  | .whole message => header message.tag 0 message.payload.size ++ message.payload.bytes
  | .chunk part =>
    header part.tag 1 (part.data.size + chunkHeaderLength) ++
      (Bytes.littleEndian 4 part.position.toNat ++
        (if part.isLast then 1 else 0) :: Bytes.littleEndian 4 part.total.toNat) ++
      part.data.bytes

/-- The bytes of a frame; a frame that is too long has none. -/
def encode (frame : Frame) : Except NetError Bytes :=
  if frame.length ≤ maxFrameLength then .ok frame.bytes
  else .error (.protocol (.frameTooLong frame.length))

/-- Reads the content of a frame whose header declared `length` bytes. -/
def readContent (tag flag : UInt8) (length : Nat) (source : Source) :
    Except NetError Frame × Source :=
  if flag = 0 then
    match source.readExact length with
    | (.error fault, source) => (.error fault.toError, source)
    | (.ok payload, source) => (.ok (.whole ⟨tag, .ofBytes payload⟩), source)
  else if length < chunkHeaderLength then (.error (.protocol (.chunkTooShort length)), source)
  else
    match source.readExact chunkHeaderLength with
    | (.error fault, source) => (.error fault.toError, source)
    | (.ok head, source) =>
      match source.readExact (length - chunkHeaderLength) with
      | (.error fault, source) => (.error fault.toError, source)
      | (.ok data, source) =>
        (.ok (.chunk {
          tag
          position := UInt32.ofNat (Bytes.ofLittleEndian (head.take 4))
          isLast := (head.drop 4).headD 0 != 0
          total := UInt32.ofNat (Bytes.ofLittleEndian (head.drop 5))
          data := .ofBytes data }), source)

/-- Reads one frame.  A header that cannot be right is refused before any content is read. -/
def read (source : Source) : Except NetError Frame × Source :=
  match source.readExact headerLength with
  | (.error fault, source) => (.error fault.toError, source)
  | (.ok head, source) =>
    let tag := head.headD 0
    let flag := (head.drop 1).headD 0
    let length := Bytes.ofLittleEndian (head.drop 2)
    if flag ≠ 0 ∧ flag ≠ 1 then (.error (.protocol (.unknownFlag flag.toNat)), source)
    else if maxFrameLength < length then (.error (.protocol (.declaredTooLong length)), source)
    else readContent tag flag length source

/-- Reads frames until one fails: the frames, the failure, and the stream after it.  `fuel` bounds
the number of frames. -/
def readMany : Nat → Source → List Frame × NetError × Source
  | 0, source => ([], IoFault.endOfStream.toError, source)
  | fuel + 1, source =>
    match read source with
    | (.error e, source) => ([], e, source)
    | (.ok frame, source) =>
      let (frames, e, source) := readMany fuel source
      (frame :: frames, e, source)

end Frame

end Overlay.Wire
