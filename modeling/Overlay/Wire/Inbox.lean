import Overlay.Wire.Assembler

/-!
# The incoming side of a connection

Frames are read and reassembled until a message is complete or something
fails.
-/

namespace Overlay.Wire

/-- The incoming side of a connection: the message in flight and the stream. -/
structure Inbox where
  assembler : Assembler := .idle
  source : Source

namespace Inbox

/-- Reads frames until they complete a message.  Each frame takes the length of a header from the
stream, so `fuel` bounds their number. -/
def readFrames : Nat → Inbox → Except NetError Message × Inbox
  | 0, inbox => (.error IoFault.endOfStream.toError, inbox)
  | fuel + 1, inbox =>
    match Frame.read inbox.source with
    | (.error e, source) => (.error e, { inbox with source })
    | (.ok frame, source) =>
      match inbox.assembler.push frame with
      | (.error e, assembler) => (.error e, ⟨assembler, source⟩)
      | (.ok (some message), assembler) => (.ok message, ⟨assembler, source⟩)
      | (.ok none, assembler) => readFrames fuel ⟨assembler, source⟩

def read (inbox : Inbox) : Except NetError Message × Inbox :=
  inbox.readFrames (inbox.source.unread.length + 1)

/-- The results of so many reads in a row, whatever they are. -/
def readTimes : Nat → Inbox → List (Except NetError Message)
  | 0, _ => []
  | count + 1, inbox =>
    let (result, inbox) := inbox.read
    result :: readTimes count inbox

/-- Reads messages until a read fails: the messages and the failure. -/
def readAll (fuel : Nat) (inbox : Inbox) : List Message × NetError :=
  match fuel with
  | 0 => ([], IoFault.endOfStream.toError)
  | fuel + 1 =>
    match inbox.read with
    | (.error e, _) => ([], e)
    | (.ok message, inbox) =>
      let (messages, e) := readAll fuel inbox
      (message :: messages, e)

/-- Reads a stream to its end or first failure. -/
def drain (source : Source) : List Message × NetError :=
  readAll (source.unread.length + 1) { source }

end Inbox

end Overlay.Wire
