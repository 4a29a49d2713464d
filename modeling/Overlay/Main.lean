import Overlay.Program.Command

/-!
# The program

Copies what a call may read from the disk into a tree of files, carries the
call out there, and copies what changed back.  A node that runs on is spoken
to in lines of standard input, each about one connection:

* `dial HOST BYTES`: somebody at a host connects and greets with these bytes;
* `recv LINE BYTES`: more bytes come in on a connection;
* `close LINE`: a connection ends.

Each line is answered with one that says what came of it, then what the node
sent follows as `sent LINE BYTES`, and `ended LINE` when it hung up.  Its log
goes to standard error.  Bytes are written in hexadecimal.
-/

namespace Overlay.Main

/-- The file in the directory of a store that holds its entries. -/
def storeFile : String := "entries"

/-- The target of the lines that the program logs. -/
def logTarget : String := "overlay"

/-- The bytes of hexadecimal text. -/
def readHex (text : String) : Bytes :=
  (Text.Hex.decode (Bytes.ofText text)).toOption.getD []

/-- The text that keeps a store: a line for each entry. -/
def storeText (store : PeerStore) : String :=
  String.join (store.entries.map fun (key, value) =>
    Text.Hex.encode key ++ " " ++ Text.Hex.encode value ++ "\n")

/-- Reads the text that keeps a store. -/
def readStore (text : String) : PeerStore :=
  ⟨(text.splitOn "\n").filterMap fun line =>
    match line.splitOn " " with
    | [key, value] => some (readHex key, readHex value)
    | _ => none⟩

/-- The path on the disk of a place among the files. -/
def diskPath (place : List String) : String :=
  "/" ++ String.intercalate "/" place

/-- Copies what stands at a place of the disk. -/
def copyIn (files : Files) (place : List String) : IO Files := do
  let path := (← IO.currentDir) / diskPath place
  if ← path.isDir then
    let entries := path / storeFile
    if ← entries.pathExists then
      return files.set place (.store (readStore (← IO.FS.readFile entries)))
    return files.set place .directory
  else if ← path.pathExists then
    return files.set place (.file ((← IO.FS.readBinFile path).toList))
  return files

/-- Copies what stands at a path, and the directories that it lies in. -/
def copyPath (files : Files) (path : String) : IO Files := do
  let names := Path.names path
  let base := if path.startsWith "/" then [] else files.workingDirectory
  (List.range (names.length + 1)).foldlM (fun files n => copyIn files (base ++ names.take n)) files

/-- Writes an entry to the disk. -/
def copyOut (place : List String) (entry : FileEntry) : IO Unit :=
  match entry with
  | .directory => IO.FS.createDirAll (diskPath place)
  | .file content => IO.FS.writeBinFile (diskPath place) (Payload.ofBytes content)
  | .store store => do
    IO.FS.createDirAll (diskPath place)
    IO.FS.writeFile (diskPath (place ++ [storeFile])) (storeText store)

/-- The paths that a command may read or write, as far as they are known from the files so far. -/
def pathsOf (files : Files) (environment : Environment) : Command → List String
  | .keygen out _ => [out]
  | .showPeers dataDirectory => [Path.join dataDirectory "peers"]
  | .run config port bootnodes peers =>
    match Command.settings files environment config port bootnodes peers with
    | .error _ => config.toList
    | .ok settings => [settings.keyPath, settings.storePath]

/-- Logs lines that the filter keeps. -/
def log (filter : LogFilter) (lines : List (LogLevel × String)) : IO Unit :=
  lines.forM fun (level, text) =>
    if filter.keeps logTarget level text then IO.eprintln s!"[{level.name} {logTarget}] {text}"
    else return ()

/-- Lets what a line of input says happen to a node: what is answered at once, and the site. -/
def obey (site : Site) (node : Node) (line : String) : String × Site :=
  let words := (String.ofList (Text.trimBlank line.toList)).splitOn " "
  match words with
  | ["dial", host, greeting] =>
    let (meeting, met, node, net) := node.answer site.net host (readHex greeting)
    let verdict := match meeting.result, met with
      | .ok _, some n => s!"line {n}"
      | .ok _, none => "refused"
      | .error cause, _ => s!"refused: {cause.message}"
    (s!"{verdict} {Text.Hex.encode meeting.sent}", { site with net }.rest node)
  | ["recv", n, content] =>
    let (_, handled, site) := site.act node fun world =>
      ((), world.withNet (·.arrive (n.toNat?.getD 0) (readHex content)))
    (s!"handled {handled}", site)
  | ["close", n] => ("closed", { site with net := site.net.hangUp (n.toNat?.getD 0) }.rest node)
  | _ => ("unknown", site)

/-- Writes every entry of the files to the disk. -/
def keep (files : Files) : IO Unit :=
  files.entries.reverse.forM fun (place, entry) => copyOut place entry

/-- Runs a node on lines of input until they end. -/
partial def serve (filter : LogFilter) (input : IO.FS.Stream) (site : Site) : IO Unit := do
  let line ← input.getLine
  match site.node with
  | none => return ()
  | some node =>
    if line.isEmpty then
      keep site.stop.files
    else
      let (reply, site) := obey site node line
      IO.println reply
      log filter site.logged
      let (news, net) := site.net.news
      for (n, written, ended) in news do
        if written.size ≠ 0 then IO.println s!"sent {n} {Text.Hex.encode written.bytes}"
        if ended then IO.println s!"ended {n}"
      (← IO.getStdout).flush
      serve filter input { site.hush with net }

/-- Calls the program. -/
def call (arguments : List String) : IO UInt32 := do
  let environment : Environment :=
    { address := ← IO.getEnv "NODE_ADDRESS", port := ← IO.getEnv "NODE_PORT" }
  let filter := LogFilter.adjust {} ((← IO.getEnv "NODE_LOG").getD "")
  let workingDirectory := Path.names (← IO.currentDir).toString
  let empty : Files := { workingDirectory }
  let files ← match CommandLine.parse arguments with
    | .error _ => pure empty
    | .ok command =>
      let files ← match command with
        | .run (some config) _ _ _ => copyPath empty config
        | _ => pure empty
      (pathsOf files environment command).foldlM copyPath files
  let entropy := (← IO.getRandomBytes 40).toList
  let (outcome, site) :=
    { files : Site }.invoke { program := logTarget, arguments, environment, entropy }
  keep site.files
  for line in outcome.printed do
    IO.println line.text
  log filter outcome.logged.toList
  match outcome with
  | .misused fault => IO.eprintln s!"error: {fault.name}"
  | .running _ => serve filter (← IO.getStdin) site
  | _ => pure ()
  return UInt32.ofNat (outcome.status.getD 0)

end Overlay.Main

def main (arguments : List String) : IO UInt32 :=
  Overlay.Main.call arguments
