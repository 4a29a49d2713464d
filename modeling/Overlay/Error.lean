import Overlay.Payload.Fault
import Overlay.Text.Hex

/-!
# Errors of a node

Every failure has a kind and a cause.  The causes that a node finds itself are
values; those reported from outside (the system, a refusing caller) are texts.
`NetError.message` gives the wording of all of them.
-/

namespace Overlay

/-- The largest length a frame may declare. -/
def maxFrameLength : Nat := 16 * 1024 * 1024

/-- The largest payload of a message. -/
def maxMessageLength : Nat := 64 * 1024 * 1024

/-- Breaches of the wire format and of the chunk discipline. -/
inductive ProtocolFault
  | frameTooLong (length : Nat)
  | unknownFlag (flag : Nat)
  | declaredTooLong (length : Nat)
  | chunkTooShort (length : Nat)
  | messageTooLong (length : Nat)
  | chunkedTooLong (length : Nat)
  | sequenceStart (position : Nat)
  | interleaved (tag expected : Nat)
  | misplaced (expected got : Nat)
  | totalChanged (declared got : Nat)
  | exceedsTotal (total : Nat)
  | lengthMismatch (received declared : Nat)
  | positionsExhausted
  | unexpectedTag (expected : String) (tag : Nat)
  | handshakeTooLarge (length : Nat)
  | handshakeChunked
  | reported (text : String)
  deriving DecidableEq, Repr

def ProtocolFault.text : ProtocolFault → String
  | .frameTooLong length => s!"frame length {length} exceeds maximum {maxFrameLength}"
  | .unknownFlag flag => s!"invalid chunk flag {flag}"
  | .declaredTooLong length => s!"declared frame length {length} exceeds maximum {maxFrameLength}"
  | .chunkTooShort length => s!"chunked frame length {length} shorter than partial header"
  | .messageTooLong length => s!"message of {length} bytes exceeds maximum {maxMessageLength}"
  | .chunkedTooLong length =>
    s!"chunked message of {length} bytes exceeds maximum {maxMessageLength}"
  | .sequenceStart position => s!"chunk sequence starts at position {position}"
  | .interleaved tag expected => s!"chunk of type {tag} interleaved with in-flight type {expected}"
  | .misplaced expected got => s!"expected chunk position {expected}, got {got}"
  | .totalChanged declared got => s!"total size changed from {declared} to {got} mid-sequence"
  | .exceedsTotal total => s!"chunks exceed declared total size {total}"
  | .lengthMismatch received declared =>
    s!"reassembled {received} bytes but {declared} were declared"
  | .positionsExhausted => "chunk positions exhausted"
  | .unexpectedTag expected tag => s!"expected {expected} message, got type {tag}"
  | .handshakeTooLarge length => s!"handshake of {length} bytes is too large"
  | .handshakeChunked => "handshake must not be chunked"
  | .reported text => text

inductive HandshakeFault
  | ownKey
  | versionMismatch (theirs ours : Nat)
  | invalidSignature
  | selfConnection
  | addingSelf
  | keyChanged
  | reported (text : String)
  deriving DecidableEq, Repr

def HandshakeFault.text : HandshakeFault → String
  | .ownKey => "remote presented our own public key"
  | .versionMismatch theirs ours => s!"protocol version {theirs} does not match ours ({ours})"
  | .invalidSignature => "invalid signature"
  | .selfConnection => "connection to ourselves"
  | .addingSelf => "refusing to add ourselves"
  | .keyChanged => "public key changed on reconnect"
  | .reported text => text

/-- Why settings or addresses cannot be used. -/
inductive ConfigFault
  | chunkSize (size : Nat)
  | missingPort (text : String)
  | missingHost (text : String)
  | invalidPort (text : String) (fault : Text.NumberFault)
  | unreadable (path fault : String)
  | malformed
  | portVariable (text : String)
  | notPositive (setting : String)
  | chunkSizeRange
  | reported (text : String)
  deriving DecidableEq, Repr

def ConfigFault.text : ConfigFault → String
  | .chunkSize size => s!"invalid chunk size {size}"
  | .missingPort text => s!"Endpoint '{text}' is missing a port"
  | .missingHost text => s!"Endpoint '{text}' is missing a host"
  | .invalidPort text fault => s!"Invalid port in '{text}': {fault.text}"
  | .unreadable path fault => s!"Failed to read config {path}: {fault}"
  | .malformed => "malformed settings"
  | .portVariable text => s!"NODE_PORT={text} is not a port"
  | .notPositive setting => s!"{setting} must be greater than 0"
  | .chunkSizeRange => s!"max_chunk_size must be between 1 and {maxFrameLength}"
  | .reported text => text

inductive KeyDocumentFault
  | invalidEncoding
  | versionNotSupported
  | wrongAlgorithm
  | invalidComponent
  | inconsistentComponents
  deriving DecidableEq, Repr

def KeyDocumentFault.name : KeyDocumentFault → String
  | .invalidEncoding => "InvalidEncoding"
  | .versionNotSupported => "VersionNotSupported"
  | .wrongAlgorithm => "WrongAlgorithm"
  | .invalidComponent => "InvalidComponent"
  | .inconsistentComponents => "InconsistentComponents"

inductive KeyFault
  | document (fault : KeyDocumentFault)
  | unreadable (path fault : String)
  | notHex (path : String) (fault : Text.Hex.Fault)
  | reported (text : String)
  deriving DecidableEq, Repr

def KeyFault.text : KeyFault → String
  | .document fault => s!"Failed to create key pair from PKCS8: {fault.name}"
  | .unreadable path fault => s!"Failed to read {path}: {fault}"
  | .notHex path fault => s!"Invalid key file {path}: {fault.text}"
  | .reported text => text

inductive SerializationFault
  | decode (fault : Payload.DecodeFault)
  | reported (text : String)
  deriving DecidableEq, Repr

def SerializationFault.text : SerializationFault → String
  | .decode fault => fault.text
  | .reported text => text

/-- An error of a node: its kind with its cause. -/
inductive NetError
  | io (text : String)
  | timeout (text : String)
  | protocol (fault : ProtocolFault)
  | handshake (fault : HandshakeFault)
  | notConnected (text : String)
  | duplicatePeer (text : String)
  | duplicateKey (text : String)
  | storeFull (text : String)
  | bind (text : String)
  | config (fault : ConfigFault)
  | serialization (fault : SerializationFault)
  | crypto (fault : KeyFault)
  | database (text : String)
  | shutdown
  deriving DecidableEq, Repr

namespace NetError

def kind : NetError → String
  | .io _ => "Io"
  | .timeout _ => "Timeout"
  | .protocol _ => "Protocol"
  | .handshake _ => "Handshake"
  | .notConnected _ => "NotConnected"
  | .duplicatePeer _ => "DuplicatePeer"
  | .duplicateKey _ => "DuplicateKey"
  | .storeFull _ => "StoreFull"
  | .bind _ => "Bind"
  | .config _ => "Config"
  | .serialization _ => "Serialization"
  | .crypto _ => "Crypto"
  | .database _ => "Database"
  | .shutdown => "Shutdown"

/-- An error reported from outside, by the name of its kind. -/
def reported (kind text : String) : NetError :=
  match kind with
  | "Timeout" => .timeout text
  | "Protocol" => .protocol (.reported text)
  | "Handshake" => .handshake (.reported text)
  | "NotConnected" => .notConnected text
  | "DuplicatePeer" => .duplicatePeer text
  | "DuplicateKey" => .duplicateKey text
  | "StoreFull" => .storeFull text
  | "Bind" => .bind text
  | "Config" => .config (.reported text)
  | "Serialization" => .serialization (.reported text)
  | "Crypto" => .crypto (.reported text)
  | "Database" => .database text
  | "Shutdown" => .shutdown
  | _ => .io text

def message : NetError → String
  | .io text => "I/O error: " ++ text
  | .timeout text => "Timed out: " ++ text
  | .protocol fault => "Protocol error: " ++ fault.text
  | .handshake fault => "Handshake rejected: " ++ fault.text
  | .notConnected text => "Peer not connected: " ++ text
  | .duplicatePeer text => "Duplicate peer: " ++ text
  | .duplicateKey text => "Duplicate key: " ++ text
  | .storeFull text => "Store full, cannot add: " ++ text
  | .bind text => "Failed to bind listener: " ++ text
  | .config fault => "Configuration error: " ++ fault.text
  | .serialization fault => "Serialization error: " ++ fault.text
  | .crypto fault => "Cryptographic error: " ++ fault.text
  | .database text => "Database error: " ++ text
  | .shutdown => "Network component has been shut down"

/-- Whether the connection, and not what was sent on it, is at fault. -/
def isTransient : NetError → Bool
  | .io _ => true
  | .timeout _ => true
  | _ => false

end NetError

end Overlay
