import Overlay.Files
import Overlay.Policy
import Overlay.Toml.Document

/-!
# Settings of a node

Settings come from a TOML document, in which every entry has a default and
unknown ones are ignored, and two variables of the environment replace the
address to listen on.  Endpoints are kept as texts until they are needed.
-/

namespace Overlay

/-- The port that a node listens on unless told otherwise. -/
def defaultListenPort : UInt16 := 6800

structure Settings where
  listenHost : String := "0.0.0.0"
  listenPort : UInt16 := defaultListenPort
  advertisedHost : Option String := none
  target : Nat := 8
  bootnodes : List String := ["127.0.0.1:6789", "127.0.0.1:6788"]
  peers : List String := []
  dialTimeout : Nat := 3000
  handshakeTimeout : Nat := 5000
  maintenancePeriod : Nat := 60
  maintenanceDelay : Nat := 0
  attempts : Nat := 3
  reconnectDelay : Nat := 500
  maxReconnectDelay : Nat := 10000
  maxChunkSize : Nat := 65536
  bookCapacity : Nat := 20
  dataDirectory : String := "data"
  keyFile : String := "node.key"
  persistPeers : Bool := true
  deriving DecidableEq, Repr

/-- The variables of the environment that settings yield to. -/
structure Environment where
  address : Option String := none
  port : Option String := none

namespace Toml

def Value.asText : Value → Option String
  | .text content => some content
  | _ => none

/-- The value of an integer between zero and a bound. -/
def Value.asNat (bound : Nat) : Value → Option Nat
  | .integer n => if 0 ≤ n ∧ n ≤ bound then some n.toNat else none
  | _ => none

def Value.asBool : Value → Option Bool
  | .boolean b => some b
  | _ => none

def Value.asTexts : Value → Option (List String)
  | .array items => items.mapM Value.asText
  | _ => none

/-- Reads an entry that may be missing. -/
def Table.field {α : Type} (table : Table) (key : String) (read : Value → Option α)
    (missing : α) : Option α :=
  match table.lookup key with
  | none => some missing
  | some value => read value

end Toml

namespace Settings

/-- The largest value of a setting of thirty-two bits. -/
def bound32 : Nat := UInt32.size - 1

/-- The largest value of a setting of sixty-four bits. -/
def bound64 : Nat := UInt64.size - 1

def ofTable (table : Toml.Table) : Option Settings := do
  let usual : Settings := {}
  let text := fun key missing => table.field key Toml.Value.asText missing
  let texts := fun key missing => table.field key Toml.Value.asTexts missing
  let number := fun key missing => table.field key (Toml.Value.asNat bound64) missing
  let listenHost ← text "listen_host" usual.listenHost
  let listenPort ← table.field "listen_port"
    (fun v => (v.asNat 65535).map UInt16.ofNat) usual.listenPort
  let advertisedHost ← table.field "advertised_host" (fun v => v.asText.map some) none
  let target ← number "target_peer_count" usual.target
  let bootnodes ← texts "bootnodes" usual.bootnodes
  let peers ← texts "peers" usual.peers
  let dialTimeout ← number "dial_timeout_ms" usual.dialTimeout
  let handshakeTimeout ← number "handshake_timeout_ms" usual.handshakeTimeout
  let maintenancePeriod ← number "maintenance_period_secs" usual.maintenancePeriod
  let maintenanceDelay ← number "initial_maintenance_delay_secs" usual.maintenanceDelay
  let attempts ← table.field "reconnect_attempts" (Toml.Value.asNat bound32) usual.attempts
  let reconnectDelay ← number "reconnect_delay_ms" usual.reconnectDelay
  let maxReconnectDelay ← number "max_reconnect_delay_ms" usual.maxReconnectDelay
  let maxChunkSize ← number "max_chunk_size" usual.maxChunkSize
  let bookCapacity ← number "address_book_capacity" usual.bookCapacity
  let dataDirectory ← text "data_dir" usual.dataDirectory
  let keyFile ← text "key_file" usual.keyFile
  let persistPeers ← table.field "persist_peers" Toml.Value.asBool usual.persistPeers
  return {
    listenHost, listenPort, advertisedHost, target, bootnodes, peers, dialTimeout,
    handshakeTimeout, maintenancePeriod, maintenanceDelay, attempts, reconnectDelay,
    maxReconnectDelay, maxChunkSize, bookCapacity, dataDirectory, keyFile, persistPeers }

def ofText (text : String) : Except NetError Settings :=
  match (Toml.read text).bind ofTable with
  | none => .error (.config .malformed)
  | some settings => .ok settings

/-- Replaces the address to listen on: an endpoint gives host and port, and any other text but the
empty one a host. -/
def overrideAddress (settings : Settings) (address : String) : Except NetError Settings :=
  match Endpoint.parse address with
  | .ok e => .ok { settings with listenHost := e.host, listenPort := e.port }
  | .error e => if address = "" then .error e else .ok { settings with listenHost := address }

/-- Replaces the port to listen on. -/
def overridePort (settings : Settings) (port : String) : Except NetError Settings :=
  match Text.readUInt16 port.toList with
  | .error _ => .error (.config (.portVariable port))
  | .ok listenPort => .ok { settings with listenPort }

/-- Applies the environment.  What was replaced before a failure stays replaced. -/
def overrideBy (settings : Settings) (env : Environment) : Settings × Except NetError Unit :=
  let replaced : Except NetError Settings := match env.address with
    | none => .ok settings
    | some address => settings.overrideAddress address
  match replaced with
  | .error e => (settings, .error e)
  | .ok settings =>
    match env.port with
    | none => (settings, .ok ())
    | some port =>
      match settings.overridePort port with
      | .error e => (settings, .error e)
      | .ok settings => (settings, .ok ())

/-- The endpoints of texts, if all are endpoints. -/
def parseAll (texts : List String) : Except NetError (List Endpoint) :=
  texts.mapM Endpoint.parse

/-- The endpoints to start from. -/
def bootnodeEndpoints (settings : Settings) : Except NetError (List Endpoint) :=
  parseAll settings.bootnodes

/-- The endpoints to dial at the start. -/
def peerEndpoints (settings : Settings) : Except NetError (List Endpoint) :=
  parseAll settings.peers

/-- The settings that must not be zero, with their names. -/
def positiveSettings (settings : Settings) : List (String × Nat) :=
  [("target_peer_count", settings.target), ("dial_timeout_ms", settings.dialTimeout),
    ("handshake_timeout_ms", settings.handshakeTimeout),
    ("maintenance_period_secs", settings.maintenancePeriod),
    ("reconnect_delay_ms", settings.reconnectDelay)]

/-- Checks that settings can be used; the first fault counts. -/
def validate (settings : Settings) : Except NetError Unit :=
  match settings.positiveSettings.find? (·.2 == 0) with
  | some (name, _) => .error (.config (.notPositive name))
  | none =>
    if settings.maxChunkSize = 0 ∨ maxFrameLength < settings.maxChunkSize then
      .error (.config .chunkSizeRange)
    else do
      let _ ← settings.bootnodeEndpoints
      let _ ← settings.peerEndpoints
      return ()

/-- Settings as a document and an environment give them, checked. -/
def ofSources (text : String) (env : Environment) : Except NetError Settings := do
  let (settings, applied) := (← ofText text).overrideBy env
  applied
  settings.validate
  return settings

def load (files : Files) (path : String) (env : Environment) : Except NetError Settings :=
  match files.readText path with
  | .error fault => .error (.config (.unreadable path fault.text))
  | .ok text => ofSources text env

def listenAddress (settings : Settings) : String :=
  Endpoint.display ⟨settings.listenHost, settings.listenPort⟩

def reachableHost (settings : Settings) : String :=
  settings.advertisedHost.getD settings.listenHost

def keyPath (settings : Settings) : String :=
  Path.join settings.dataDirectory settings.keyFile

def storePath (settings : Settings) : String :=
  Path.join settings.dataDirectory "peers"

def linkPolicy (settings : Settings) : LinkPolicy where
  attempts := settings.attempts
  delay := settings.reconnectDelay
  maxDelay := max settings.maxReconnectDelay settings.reconnectDelay
  chunkSize := settings.maxChunkSize

/-- What the pool of a node that listens on a port aims at. -/
def poolPolicy (settings : Settings) (port : UInt16) : Except NetError PoolPolicy :=
  settings.bootnodeEndpoints.map fun bootnodes =>
    { target := settings.target
      bootnodes
      selfEndpoint := some ⟨settings.reachableHost, port⟩
      link := settings.linkPolicy
      requestTimeout := settings.dialTimeout
      bookCapacity := settings.bookCapacity }

end Settings

end Overlay
