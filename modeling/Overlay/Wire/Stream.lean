import Overlay.Bytes
import Overlay.Error

/-!
# Byte streams

A stream is the schedule by which it answers: what each read hands out, and
how much each write takes.  Exact reads and whole writes repeat the calls that
were interrupted or cut short; every other fault ends them.
-/

namespace Overlay.Wire

/-- The kinds of input and output faults that are told apart. -/
inductive IoKind
  | timedOut
  | wouldBlock
  | interrupted
  | other
  deriving DecidableEq, Repr

/-- A fault reported by a stream. -/
structure IoFault where
  kind : IoKind
  text : String
  deriving DecidableEq, Repr

/-- The usual texts of the faults that systems report, by name. -/
def kindTexts : List (String × String) :=
  [("AddrInUse", "address in use"), ("AddrNotAvailable", "address not available"),
    ("AlreadyExists", "entity already exists"), ("ArgumentListTooLong", "argument list too long"),
    ("BrokenPipe", "broken pipe"), ("ConnectionAborted", "connection aborted"),
    ("ConnectionRefused", "connection refused"), ("ConnectionReset", "connection reset"),
    ("CrossesDevices", "cross-device link or rename"), ("Deadlock", "deadlock"),
    ("DirectoryNotEmpty", "directory not empty"),
    ("ExecutableFileBusy", "executable file busy"), ("FileTooLarge", "file too large"),
    ("HostUnreachable", "host unreachable"), ("Interrupted", "operation interrupted"),
    ("InvalidData", "invalid data"), ("InvalidFilename", "invalid filename"),
    ("InvalidInput", "invalid input parameter"), ("IsADirectory", "is a directory"),
    ("NetworkDown", "network down"), ("NetworkUnreachable", "network unreachable"),
    ("NotADirectory", "not a directory"), ("NotConnected", "not connected"),
    ("NotFound", "entity not found"), ("NotSeekable", "seek on unseekable file"),
    ("Other", "other error"), ("OutOfMemory", "out of memory"),
    ("PermissionDenied", "permission denied"), ("QuotaExceeded", "quota exceeded"),
    ("ReadOnlyFilesystem", "read-only filesystem or storage medium"),
    ("ResourceBusy", "resource busy"), ("StaleNetworkFileHandle", "stale network file handle"),
    ("StorageFull", "no storage space"), ("TimedOut", "timed out"),
    ("TooManyLinks", "too many links"), ("UnexpectedEof", "unexpected end of file"),
    ("Unsupported", "unsupported"), ("WouldBlock", "operation would block"),
    ("WriteZero", "write zero")]

/-- The fault of a name, with its usual text unless another is given. -/
def IoFault.ofName (name : String) (text : Option String) : IoFault :=
  let kind := match name with
    | "TimedOut" => .timedOut
    | "WouldBlock" => .wouldBlock
    | "Interrupted" => .interrupted
    | _ => .other
  ⟨kind, text.getD ((kindTexts.lookup name).getD "other error")⟩

/-- A fault as an error: an elapsed deadline is a timeout. -/
def IoFault.toError (fault : IoFault) : NetError :=
  match fault.kind with
  | .timedOut => .timeout fault.text
  | .wouldBlock => .timeout fault.text
  | _ => .io fault.text

/-- The stream ended within an exact read. -/
def IoFault.endOfStream : IoFault := ⟨.other, "failed to fill whole buffer"⟩

/-- The stream took nothing of a whole write. -/
def IoFault.nothingTaken : IoFault := ⟨.other, "failed to write whole buffer"⟩

/-- What the next read of a stream finds: bytes, handed out as far as the reader has room, or a
fault. -/
inductive Delivery
  | bytes (bytes : Bytes)
  | fault (fault : IoFault)
  deriving DecidableEq, Repr

/-- An incoming stream: its deliveries in order, and then its end. -/
abbrev Source := List Delivery

namespace Source

/-- The stream that delivers a byte string at once. -/
def ofBytes (bytes : Bytes) : Source :=
  [.bytes bytes]

/-- The bytes of a stream that have not been read. -/
def unread : Source → Bytes
  | [] => []
  | .bytes bytes :: rest => bytes ++ unread rest
  | .fault _ :: rest => unread rest

/-- Reads exactly `count` bytes.  What was taken before a fault is lost. -/
def readExact : Nat → Source → Except IoFault Bytes × Source
  | 0, source => (.ok [], source)
  | _ + 1, [] => (.error .endOfStream, [])
  | count + 1, .fault fault :: rest =>
    if fault.kind = .interrupted then readExact (count + 1) rest else (.error fault, rest)
  | count + 1, .bytes bytes :: rest =>
    let taken := bytes.take (count + 1)
    let left := bytes.drop (count + 1)
    if taken.length = count + 1 then (.ok taken, if left = [] then rest else .bytes left :: rest)
    else if taken = [] then (.error .endOfStream, rest)
    else
      match readExact (count + 1 - taken.length) rest with
      | (.ok more, rest) => (.ok (taken ++ more), rest)
      | (.error fault, rest) => (.error fault, rest)

end Source

/-- How a stream answers one write call: it fails, or takes at most so many bytes, or all. -/
inductive WriteAnswer
  | fault (fault : IoFault)
  | take (limit : Nat)
  | all
  deriving DecidableEq, Repr

/-- An outgoing stream: its answers to write calls and to flushes, in order.  When they run out it
takes everything. -/
structure Sink where
  writes : List WriteAnswer := []
  flushes : List WriteAnswer := []

/-- The outcome of a write: its result, the bytes the stream took, the number of write calls, and
the stream afterwards. -/
structure Written where
  result : Except IoFault Unit
  taken : Bytes
  calls : Nat
  sink : Sink

/-- Offers `bytes` to a stream until all are taken. -/
def writeAll (flushes : List WriteAnswer) : List WriteAnswer → Bytes → Written
  | writes, [] => ⟨.ok (), [], 0, ⟨writes, flushes⟩⟩
  | [], bytes => ⟨.ok (), bytes, 1, ⟨[], flushes⟩⟩
  | .all :: writes, bytes => ⟨.ok (), bytes, 1, ⟨writes, flushes⟩⟩
  | .fault fault :: writes, bytes =>
    if fault.kind = .interrupted then
      let more := writeAll flushes writes bytes
      { more with calls := more.calls + 1 }
    else ⟨.error fault, [], 1, ⟨writes, flushes⟩⟩
  | .take limit :: writes, bytes =>
    if limit = 0 then ⟨.error .nothingTaken, [], 1, ⟨writes, flushes⟩⟩
    else
      let more := writeAll flushes writes (bytes.drop limit)
      { more with taken := bytes.take limit ++ more.taken, calls := more.calls + 1 }

namespace Sink

def write (sink : Sink) (bytes : Bytes) : Written :=
  writeAll sink.flushes sink.writes bytes

/-- Flushes a stream, once. -/
def flush (sink : Sink) : Except IoFault Unit × Sink :=
  match sink.flushes with
  | .fault fault :: rest => (.error fault, { sink with flushes := rest })
  | _ :: rest => (.ok (), { sink with flushes := rest })
  | [] => (.ok (), sink)

end Sink

end Overlay.Wire
