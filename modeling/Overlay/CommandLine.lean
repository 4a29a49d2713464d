import Overlay.Text.Decimal

/-!
# Command lines

A command line names a command and gives it switches.  A switch that takes a
value takes it from behind an equals sign, from the rest of a short switch, or
from the next argument, unless that looks like a switch.  A value is checked
when the next switch begins or the line ends, so that of two faults the one
that is met first counts.
-/

namespace Overlay

/-- What a command line asks for. -/
inductive Command
  | run (config : Option String) (port : Option UInt16) (bootnodes peers : List String)
  | keygen (out : String) (force : Bool)
  | showPeers (dataDirectory : String)
  deriving DecidableEq, Repr

/-- Why a command line asks for nothing. -/
inductive UsageFault
  | help
  | helpOnMissing
  | unknownArgument
  | invalidCommand
  | invalidValue
  | rejectedValue
  | conflict
  | tooManyValues
  deriving DecidableEq, Repr

def UsageFault.name : UsageFault → String
  | help => "DisplayHelp"
  | helpOnMissing => "DisplayHelpOnMissingArgumentOrSubcommand"
  | unknownArgument => "UnknownArgument"
  | invalidCommand => "InvalidSubcommand"
  | invalidValue => "InvalidValue"
  | rejectedValue => "ValueValidation"
  | conflict => "ArgumentConflict"
  | tooManyValues => "TooManyValues"

namespace CommandLine

inductive Switch
  | help
  | config
  | port
  | bootnode
  | peer
  | out
  | force
  | dataDirectory
  deriving DecidableEq, Repr

namespace Switch

def name : Switch → String
  | help => "help"
  | config => "config"
  | port => "port"
  | bootnode => "bootnode"
  | peer => "peer"
  | out => "out"
  | force => "force"
  | dataDirectory => "data-dir"

def letter? : Switch → Option Char
  | help => some 'h'
  | config => some 'c'
  | port => some 'p'
  | out => some 'o'
  | _ => none

def takesValue : Switch → Bool
  | help => false
  | force => false
  | _ => true

def repeats : Switch → Bool
  | bootnode => true
  | peer => true
  | _ => false

end Switch

/-- Reads a port: a number, which a sign may stand before, that fits in sixteen bits. -/
def readPort (value : String) : Option UInt16 :=
  match value.toList with
  | '-' :: digits =>
    match digits with
    | '+' :: _ => none
    | digits => if (Text.readDecimal 0 digits).isOk then some 0 else none
  | digits => (Text.readUInt16 digits).toOption

/-- Checks the value of a switch. -/
def checkValue (switch : Switch) (value : String) : Except UsageFault Unit :=
  match switch with
  | .port => if (readPort value).isSome then .ok () else .error .rejectedValue
  | .bootnode => .ok ()
  | .peer => .ok ()
  | _ => if value = "" then .error .invalidValue else .ok ()

/-- What was read of the arguments of a command: the switches with their values, and the switch
whose value is still to be checked, or still to come. -/
structure Reading where
  given : List (Switch × String) := []
  pending : Option (Switch × Option String) := none
  trailing : Bool := false

namespace Reading

def values (reading : Reading) (switch : Switch) : List String :=
  reading.given.filterMap fun (s, value) => if s = switch then some value else none

/-- Takes in a switch. -/
def give (reading : Reading) (switch : Switch) (value : Option String) :
    Except UsageFault Reading :=
  if switch = .help then .error .help
  else if switch.takesValue ∧ value = none then .error .invalidValue
  else if !switch.repeats && reading.values switch ≠ [] then .error .conflict
  else do
    let text := value.getD "true"
    checkValue switch text
    return { reading with given := reading.given ++ [(switch, text)] }

/-- Takes in the switch that is pending. -/
def settle (reading : Reading) : Except UsageFault Reading :=
  match reading.pending with
  | none => .ok reading
  | some (switch, value) => { reading with pending := none }.give switch value

/-- Takes in a switch with what is attached to it. -/
def start (reading : Reading) (switch : Switch) (attached : Option String) :
    Except UsageFault Reading := do
  let reading ← reading.settle
  if switch.takesValue && attached.isNone then
    return { reading with pending := some (switch, none) }
  reading.give switch attached

/-- Takes in a long switch, behind its dashes. -/
def long (switches : List Switch) (reading : Reading) (body : List Char) :
    Except UsageFault Reading :=
  let name := body.takeWhile (· ≠ '=')
  let attached := match body.dropWhile (· ≠ '=') with
    | [] => none
    | _ :: value => some (String.ofList value)
  match switches.find? (·.name.toList == name) with
  | none => .error .unknownArgument
  | some switch =>
    if !switch.takesValue && attached.isSome then .error .tooManyValues
    else reading.start switch attached

/-- Takes in short switches, behind their dash. -/
def short (switches : List Switch) (reading : Reading) : List Char → Except UsageFault Reading
  | [] => .ok reading
  | letter :: rest =>
    match switches.find? (·.letter? == some letter) with
    | none => .error .unknownArgument
    | some switch =>
      if switch.takesValue then
        match rest with
        | [] => reading.start switch none
        | '=' :: value => reading.start switch (some (String.ofList value))
        | value => reading.start switch (some (String.ofList value))
      else do
        let reading ← reading.start switch none
        short switches reading rest

/-- Takes in the next argument. -/
def next (switches : List Switch) (reading : Reading) (argument : String) :
    Except UsageFault Reading :=
  let plain : Except UsageFault Reading :=
    match reading.pending with
    | some (switch, none) => .ok { reading with pending := some (switch, some argument) }
    | _ => .error .unknownArgument
  if reading.trailing then .error .unknownArgument
  else
    match argument.toList with
    | ['-', '-'] => .ok { reading with trailing := true }
    | '-' :: '-' :: body => reading.long switches body
    | ['-'] => plain
    | '-' :: body => reading.short switches body
    | _ => plain

def all (switches : List Switch) (arguments : List String) : Except UsageFault Reading := do
  (← arguments.foldlM (next switches) {}).settle

end Reading

/-- Where a key is written unless told otherwise. -/
def defaultKeyPath : String := "data/node.key"

/-- The directory of a node unless told otherwise. -/
def defaultDataDirectory : String := "data"

/-- The switches of the command to run a node. -/
def runSwitches : List Switch := [.config, .port, .bootnode, .peer, .help]

/-- The switches of the command to make a key. -/
def keygenSwitches : List Switch := [.out, .force, .help]

/-- The switches of the command to list known peers. -/
def showPeersSwitches : List Switch := [.dataDirectory, .help]

/-- Reads the arguments of the command to run a node. -/
def run (arguments : List String) : Except UsageFault Command := do
  let reading ← Reading.all runSwitches arguments
  return .run (reading.values .config).head? ((reading.values .port).head?.bind readPort)
    (reading.values .bootnode) (reading.values .peer)

/-- Reads the arguments of the command to make a key. -/
def keygen (arguments : List String) : Except UsageFault Command := do
  let reading ← Reading.all keygenSwitches arguments
  return .keygen ((reading.values .out).headD defaultKeyPath) (reading.values .force ≠ [])

/-- Reads the arguments of the command to list known peers. -/
def showPeers (arguments : List String) : Except UsageFault Command := do
  let reading ← Reading.all showPeersSwitches arguments
  return .showPeers ((reading.values .dataDirectory).headD defaultDataDirectory)

/-- Which command a word names. -/
def command? (word : String) : Option (List String → Except UsageFault Command) :=
  match word with
  | "run" => some run
  | "keygen" => some keygen
  | "show-peers" => some showPeers
  | _ => none

/-- Reads the words behind a request for help: at most one command. -/
def helpOn : List String → UsageFault
  | [] => .help
  | [word] => if word = "help" ∨ (command? word).isSome then .help else .invalidCommand
  | _ => .invalidCommand

/-- Whether a word names a command. -/
def isCommand (word : String) : Bool :=
  word = "help" || (command? word).isSome

/-- Reads the arguments behind two dashes: no command can follow them. -/
def trailing : List String → UsageFault
  | [] => .helpOnMissing
  | word :: _ => if isCommand word then .unknownArgument else .invalidCommand

/-- Reads a command line, without the name of the program. -/
def parse (arguments : List String) : Except UsageFault Command :=
  match arguments with
  | [] => .error .helpOnMissing
  | word :: rest =>
    if word = "help" then .error (helpOn rest)
    else
      match command? word with
      | some read => read rest
      | none =>
        if word = "--" then .error (trailing rest)
        else if word.startsWith "-" && word ≠ "-" then
          match Reading.next [.help] {} word with
          | .error fault => .error fault
          | .ok _ => .error .helpOnMissing
        else .error .invalidCommand

end CommandLine

end Overlay
