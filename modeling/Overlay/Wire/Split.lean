import Overlay.Wire.Frame

/-!
# Splitting messages

A message that fits in one chunk is one whole frame.  Any other is a sequence
of chunks of equal size, the last one excepted.
-/

namespace Overlay.Wire

namespace Message

/-- How many chunks of `size` bytes a message needs. -/
def chunkCount (message : Message) (size : Nat) : Nat :=
  (message.payload.size + (size - 1)) / size

/-- The chunk of a message at a position. -/
def chunkAt (message : Message) (size position : Nat) : Chunk where
  tag := message.tag
  position := UInt32.ofNat position
  isLast := position + 1 = message.chunkCount size
  total := UInt32.ofNat message.payload.size
  data := message.payload.extract (position * size) ((position + 1) * size)

/-- The frames that carry a message in chunks of `size` bytes. -/
def split (message : Message) (size : Nat) : Except NetError (List Frame) :=
  if size = 0 ∨ maxFrameLength < size + chunkHeaderLength then .error (.config (.chunkSize size))
  else if maxMessageLength < message.payload.size then
    .error (.protocol (.messageTooLong message.payload.size))
  else if message.payload.size ≤ size then .ok [.whole message]
  else .ok ((List.range (message.chunkCount size)).map fun i => .chunk (message.chunkAt size i))

/-- The bytes that carry a message in chunks of `size` bytes, if it can be split so. -/
def wireBytes (message : Message) (size : Nat) : Bytes :=
  match message.split size with
  | .ok frames => frames.flatMap Frame.bytes
  | .error _ => []

end Message

/-- The outcome of sending frames on a stream. -/
structure Sent where
  result : Except NetError Unit
  taken : Bytes
  calls : Nat
  sink : Sink

/-- Writes frames one after the other and flushes after the last. -/
def sendFrames : List Frame → Sink → Sent
  | [], sink =>
    let (result, sink) := sink.flush
    ⟨result.mapError IoFault.toError, [], 0, sink⟩
  | frame :: rest, sink =>
    match frame.encode with
    | .error e => ⟨.error e, [], 0, sink⟩
    | .ok bytes =>
      let written := sink.write bytes
      match written.result with
      | .error fault => ⟨.error fault.toError, written.taken, written.calls, written.sink⟩
      | .ok () =>
        let more := sendFrames rest written.sink
        { more with taken := written.taken ++ more.taken, calls := written.calls + more.calls }

/-- Sends a message in chunks of `size` bytes. -/
def sendMessage (message : Message) (size : Nat) (sink : Sink) : Sent :=
  match message.split size with
  | .error e => ⟨.error e, [], 0, sink⟩
  | .ok frames => sendFrames frames sink

end Overlay.Wire
