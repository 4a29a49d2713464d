import Overlay.KeyFile
import Overlay.Node.Site
import Overlay.Program.Help
import Overlay.Program.Log

/-!
# Commands

What the program does when it is called: a key is made, known peers are
listed, or a node is started that then runs on.  A call reads and changes the
files of a site.
-/

namespace Overlay

/-- How the program is called. -/
structure Invocation where
  program : String
  arguments : List String
  environment : Environment := {}
  /-- Random bytes, for a key that may have to be made. -/
  entropy : Bytes

/-- A line that a command prints. -/
inductive Printed
  | keyWritten (path : String)
  | publicKey (key : Bytes)
  | noStore (path : String)
  | noPeers
  | peer (record : PeerRecord)
  | help (line : String)
  deriving DecidableEq

def Printed.text : Printed → String
  | .keyWritten path => s!"Node key written to {path}"
  | .publicKey key => s!"Public key: {Text.Hex.encode key}"
  | .noStore path => s!"No peer database at {path}"
  | .noPeers => "No stored peers"
  | .peer record => s!"{record.endpoint.display} (last seen {record.lastSeen})"
  | .help line => line

/-- Why a command fails. -/
inductive CommandFault
  | keyExists (path : String)
  | network (cause : NetError)
  deriving DecidableEq, Repr

def CommandFault.text : CommandFault → String
  | .keyExists path => s!"Error: {path} already exists, use --force to replace it"
  | .network cause => "Error: " ++ cause.message

inductive Outcome
  /-- The arguments ask for help. -/
  | helped (lines : List String)
  /-- The arguments name no command. -/
  | misused (fault : UsageFault)
  | finished (printed : List Printed)
  | failed (fault : CommandFault)
  /-- A node runs on. -/
  | running (node : Node)

namespace Outcome

/-- The status that the program exits with, unless it runs on. -/
def status : Outcome → Option Nat
  | helped _ => some 0
  | misused _ => some 2
  | finished _ => some 0
  | failed _ => some 1
  | running _ => none

def printed : Outcome → List Printed
  | helped lines => lines.map .help
  | finished lines => lines
  | _ => []

/-- What is logged of it. -/
def logged : Outcome → Option (LogLevel × String)
  | failed fault => some (.error, fault.text)
  | running node => some (.info, "Node running on " ++ Endpoint.display ⟨node.host, node.port⟩)
  | _ => none

end Outcome

namespace Command

/-- Makes a key.  One that is there already is replaced only if that is asked for. -/
def makeKey (files : Files) (entropy : Bytes) (out : String) (force : Bool) : Outcome × Files :=
  if files.exists? out && !force then (.failed (.keyExists out), files)
  else
    let pair := Crypto.KeyPair.generate entropy
    match KeyFile.save files out pair with
    | (.error cause, files) => (.failed (.network cause), files)
    | (.ok (), files) => (.finished [.keyWritten out, .publicKey pair.publicKey], files)

/-- Lists the peers of a store. -/
def listPeers (files : Files) (dataDirectory : String) : Outcome × Files :=
  let path := Path.join dataDirectory "peers"
  if !files.exists? path then (.finished [.noStore path], files)
  else
    match files.openStore path with
    | .error cause => (.failed (.network cause), files)
    | .ok (store, files) =>
      match store.records with
      | .error cause => (.failed (.network cause), files)
      | .ok [] => (.finished [.noPeers], files)
      | .ok records => (.finished (records.map .peer), files)

/-- The settings of a node: those of a file or the usual ones, under what the environment and then
the command line put in their place. -/
def settings (files : Files) (environment : Environment) (config : Option String)
    (port : Option UInt16) (bootnodes peers : List String) : Except NetError Settings := do
  let base ← match config with
    | some path => Settings.load files path environment
    | none =>
      let (settings, applied) := Settings.overrideBy {} environment
      applied.map fun _ => settings
  let settings : Settings := { base with
    listenPort := port.getD base.listenPort
    bootnodes := if bootnodes = [] then base.bootnodes else bootnodes
    peers := base.peers ++ peers }
  settings.validate
  return settings

/-- Starts a node with the key of its settings, which is made if it is not there. -/
def startNode (site : Site) (entropy : Bytes) (settings : Settings) : Outcome × Site :=
  match KeyFile.loadOrGenerate site.files settings.keyPath entropy with
  | (.error cause, files) => (.failed (.network cause), { site with files })
  | (.ok key, files) =>
    match { site with files }.start settings key with
    | .error cause => (.failed (.network cause), { site with files })
    | .ok site => ((site.node.map .running).getD (.finished []), site)

/-- Carries out a command. -/
def perform (site : Site) (call : Invocation) : Command → Outcome × Site
  | .keygen out force =>
    let (outcome, files) := makeKey site.files call.entropy out force
    (outcome, { site with files })
  | .showPeers dataDirectory =>
    let (outcome, files) := listPeers site.files dataDirectory
    (outcome, { site with files })
  | .run config port bootnodes peers =>
    match settings site.files call.environment config port bootnodes peers with
    | .error cause => (.failed (.network cause), site)
    | .ok settings => startNode site call.entropy settings

end Command

/-- Calls the program. -/
def Site.invoke (site : Site) (call : Invocation) : Outcome × Site :=
  match CommandLine.parse call.arguments with
  | .error .help => (.helped (CommandLine.help call.program call.arguments), site)
  | .error fault => (.misused fault, site)
  | .ok command => command.perform site call

/-- What the node of a site logs of what it has told of its peers. -/
def Site.logged (site : Site) : List (LogLevel × String) :=
  match site.node with
  | none => []
  | some node => node.pool.told.map fun event => (.info, event.logText node.pool.members.length)

end Overlay
