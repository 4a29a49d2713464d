import Overlay.CommandLine

/-!
# Help

What is printed for those who ask for help, about the program or one command.
-/

namespace Overlay.CommandLine

namespace Switch

/-- What the value of a switch is called. -/
def placeholder? : Switch → Option String
  | help => none
  | config => some "CONFIG"
  | port => some "PORT"
  | bootnode => some "BOOTNODES"
  | peer => some "PEERS"
  | out => some "OUT"
  | force => none
  | dataDirectory => some "DATA_DIR"

/-- What a switch is for. -/
def about : Switch → String
  | help => "Print help"
  | config => "TOML config file; defaults are used when omitted"
  | port => "Port to listen on, overrides the config"
  | bootnode => "Bootnode host:port, may be repeated"
  | peer => "Peer host:port to dial at startup, may be repeated"
  | out => s!"Where to write the key [default: {defaultKeyPath}]"
  | force => "Replace an existing key file"
  | dataDirectory => s!"Node data directory [default: {defaultDataDirectory}]"

/-- How a switch is written. -/
def spelling (switch : Switch) : String :=
  let short := match switch.letter? with
    | some letter => String.ofList ['-', letter, ',', ' ']
    | none => "    "
  let value := match switch.placeholder? with
    | some name => " <" ++ name ++ ">"
    | none => ""
  short ++ "--" ++ switch.name ++ value

end Switch

/-- Lines of two columns; the first is as wide as its widest entry. -/
def table (rows : List (String × String)) : List String :=
  let width := rows.foldl (fun width row => max width row.1.length) 0
  rows.map fun (left, right) =>
    "  " ++ left ++ String.ofList (List.replicate (width - left.length + 2) ' ') ++ right

/-- The words that name commands, with what they do and the switches they take. -/
def topics : List (String × String × List Switch) :=
  [("run", "Start a node and stay connected to the network", runSwitches),
    ("keygen", "Generate a new node key", keygenSwitches),
    ("show-peers", "List peers remembered from earlier runs", showPeersSwitches)]

/-- What the request for help itself is for. -/
def helpAbout : String := "Print this message or the help of the given subcommand(s)"

def optionLines (switches : List Switch) : List String :=
  "Options:" :: table (switches.map fun switch => (switch.spelling, switch.about))

/-- The help about the program. -/
def programHelp (program : String) : List String :=
  let options := table [("-h, --help", Switch.help.about)]
  ["Peer-to-peer networking node", "", s!"Usage: {program} <COMMAND>", "", "Commands:"] ++
    table ((topics.map fun (word, about, _) => (word, about)) ++ [("help", helpAbout)]) ++
    ["", "Options:"] ++ options

def helpLines (program word : String) : List String :=
  match topics.lookup word with
  | some (about, switches) =>
    [about, "", s!"Usage: {program} {word} [OPTIONS]", ""] ++ optionLines switches
  | none =>
    if word = "help" then
      [helpAbout, "", s!"Usage: {program} help [COMMAND]...", "", "Arguments:"] ++
        table [("[COMMAND]...", "Print help for the subcommand(s)")]
    else programHelp program

/-- The word that arguments ask for help about. -/
def helpWord : List String → String
  | [] => ""
  | ["help"] => ""
  | "help" :: word :: _ => word
  | word :: _ => word

def help (program : String) (arguments : List String) : List String :=
  helpLines program (helpWord arguments)

end Overlay.CommandLine
