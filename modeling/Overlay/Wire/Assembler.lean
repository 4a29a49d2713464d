import Overlay.Wire.Frame

/-!
# Reassembly of chunks

At most one message is in flight.  Its chunks come in order of position, with
one type and one declared total; whole frames pass between them.  A chunk that
breaks these rules is refused.
-/

namespace Overlay.Wire

/-- The message in flight: what its chunks declare and what was received so far. -/
structure Assembly where
  tag : UInt8
  total : UInt32
  nextPosition : Nat
  received : Nat
  /-- The data of the chunks received, newest first. -/
  chunks : List Payload

/-- The state of reassembly: the message in flight, if there is one. -/
inductive Assembler
  | idle
  | accumulating (assembly : Assembly)

namespace Assembly

def start (tag : UInt8) (total : UInt32) : Assembly :=
  ⟨tag, total, 0, 0, []⟩

/-- The data received, in order. -/
def payload (assembly : Assembly) : Payload :=
  assembly.chunks.reverse.foldl (· ++ ·) ByteArray.empty

/-- Why a chunk does not continue a message. -/
def refuse? (assembly : Assembly) (chunk : Chunk) : Option ProtocolFault :=
  if chunk.tag ≠ assembly.tag then some (.interleaved chunk.tag.toNat assembly.tag.toNat)
  else if chunk.position.toNat ≠ assembly.nextPosition then
    some (.misplaced assembly.nextPosition chunk.position.toNat)
  else if chunk.total ≠ assembly.total then
    some (.totalChanged assembly.total.toNat chunk.total.toNat)
  else if assembly.total.toNat < assembly.received + chunk.data.size then
    some (.exceedsTotal assembly.total.toNat)
  else if assembly.nextPosition + 1 = UInt32.size then some .positionsExhausted
  else none

/-- A message with one more chunk. -/
def add (assembly : Assembly) (chunk : Chunk) : Assembly :=
  { assembly with
    nextPosition := assembly.nextPosition + 1
    received := assembly.received + chunk.data.size
    chunks := chunk.data :: assembly.chunks }

/-- Continues a message with a chunk, which may complete it. -/
def push (assembly : Assembly) (chunk : Chunk) : Except NetError (Option Message) × Assembler :=
  match assembly.refuse? chunk with
  | some fault => (.error (.protocol fault), .accumulating assembly)
  | none =>
    let assembly := assembly.add chunk
    if !chunk.isLast then (.ok none, .accumulating assembly)
    else if assembly.received ≠ assembly.total.toNat then
      (.error (.protocol (.lengthMismatch assembly.received assembly.total.toNat)),
        .accumulating assembly)
    else (.ok (some ⟨assembly.tag, assembly.payload⟩), .idle)

end Assembly

namespace Assembler

def isIdle : Assembler → Bool
  | .idle => true
  | .accumulating _ => false

/-- Takes in a chunk. -/
def pushChunk (assembler : Assembler) (chunk : Chunk) :
    Except NetError (Option Message) × Assembler :=
  if maxMessageLength < chunk.total.toNat then
    (.error (.protocol (.chunkedTooLong chunk.total.toNat)), assembler)
  else
    match assembler with
    | .accumulating assembly => assembly.push chunk
    | .idle =>
      if chunk.position ≠ 0 then
        (.error (.protocol (.sequenceStart chunk.position.toNat)), .idle)
      else (Assembly.start chunk.tag chunk.total).push chunk

/-- Takes in a frame: the message that it completes, if it does. -/
def push (assembler : Assembler) : Frame → Except NetError (Option Message) × Assembler
  | .whole message => (.ok (some message), assembler)
  | .chunk chunk => assembler.pushChunk chunk

end Assembler

end Overlay.Wire
