import Overlay.PeerStore

/-!
# Files

A tree of directories and files, read and changed through texts of paths, with
the faults that a system reports.  A store of peers is a directory of its own
kind.
-/

namespace Overlay

inductive FileEntry
  | file (content : Bytes)
  | directory
  | store (store : PeerStore)

inductive FileFault
  | notFound
  | alreadyExists
  | notDirectory
  | isDirectory
  | notText
  deriving DecidableEq, Repr

def FileFault.text : FileFault → String
  | .notFound => "No such file or directory (os error 2)"
  | .alreadyExists => "File exists (os error 17)"
  | .notDirectory => "Not a directory (os error 20)"
  | .isDirectory => "Is a directory (os error 21)"
  | .notText => "stream did not contain valid UTF-8"

/-- A tree: the names on the way from the root to each entry.  The root itself and the working
directory are directories. -/
structure Files where
  entries : List (List String × FileEntry) := []
  workingDirectory : List String := []

namespace Path

/-- The names in a path.  A path that ends in a slash ends in its directory itself. -/
def names (path : String) : List String :=
  let parts := path.splitOn "/"
  parts.filter (· ≠ "") ++ (if path.endsWith "/" then ["."] else [])

def dropEnd : List Char → List Char
  | '/' :: rest => if rest = [] then ['/'] else dropEnd rest
  | '.' :: '/' :: rest => if rest = [] then ['/'] else dropEnd rest
  | reversed => reversed

/-- The path of the directory of a path; the empty path stands for the working directory. -/
def parent? (path : String) : Option String :=
  match dropEnd path.toList.reverse with
  | [] => none
  | ['/'] => none
  | reversed =>
    let before := reversed.dropWhile (· ≠ '/')
    some (String.ofList (dropEnd before).reverse)

/-- A path below a directory, unless it starts at the root. -/
def join (directory path : String) : String :=
  if path.startsWith "/" then path
  else if directory = "" ∨ directory.endsWith "/" then directory ++ path
  else directory ++ "/" ++ path

end Path

namespace Files

def entry? (files : Files) (place : List String) : Option FileEntry :=
  if place = [] ∨ place = files.workingDirectory then
    some ((files.entries.lookup place).getD .directory)
  else files.entries.lookup place

/-- Walks from a place along names. -/
def walk (files : Files) (place : List String) : List String → Except FileFault (List String)
  | [] => .ok place
  | name :: rest =>
    match files.entry? place with
    | none => .error .notFound
    | some (.file _) => .error .notDirectory
    | some _ =>
      if name = "." then files.walk place rest
      else if name = ".." then files.walk place.dropLast rest
      else files.walk (place ++ [name]) rest

/-- The place that a path stands for, whether or not something stands there. -/
def locate (files : Files) (path : String) : Except FileFault (List String) :=
  if path = "" then .error .notFound
  else files.walk (if path.startsWith "/" then [] else files.workingDirectory) (Path.names path)

def find (files : Files) (path : String) : Except FileFault FileEntry :=
  match files.locate path with
  | .error fault => .error fault
  | .ok place =>
    match files.entry? place with
    | none => .error .notFound
    | some entry => .ok entry

def exists? (files : Files) (path : String) : Bool :=
  (files.find path).isOk

def isDirectory (files : Files) (path : String) : Bool :=
  match files.find path with
  | .ok (.file _) => false
  | .ok _ => true
  | .error _ => false

def set (files : Files) (place : List String) (entry : FileEntry) : Files :=
  { files with entries := (place, entry) :: files.entries.filter (·.1 ≠ place) }

def read (files : Files) (path : String) : Except FileFault Bytes :=
  match files.find path with
  | .error fault => .error fault
  | .ok (.file content) => .ok content
  | .ok _ => .error .isDirectory

def readText (files : Files) (path : String) : Except FileFault String :=
  match files.read path with
  | .error fault => .error fault
  | .ok content => (Text.Utf8.decode content).mapError fun _ => .notText

def write (files : Files) (path : String) (content : Bytes) : Except FileFault Files :=
  match files.locate path with
  | .error fault =>
    if path.endsWith "/" && fault = .notFound then .error .isDirectory else .error fault
  | .ok place =>
    match files.entry? place with
    | some .directory => .error .isDirectory
    | some (.store _) => .error .isDirectory
    | _ => .ok (files.set place (.file content))

def makeDirectory (files : Files) (path : String) : Except FileFault Files :=
  match files.locate path with
  | .error fault => .error fault
  | .ok place =>
    match files.entry? place with
    | some _ => .error .alreadyExists
    | none => .ok (files.set place .directory)

/-- Makes a directory and those that it lies in; `fuel` bounds their number. -/
def makeDirectories (files : Files) (fuel : Nat) (path : String) : Except FileFault Files :=
  if path = "" then .ok files
  else
    match files.makeDirectory path with
    | .ok files => .ok files
    | .error fault =>
      if fault ≠ .notFound then if files.isDirectory path then .ok files else .error fault
      else
        match fuel, Path.parent? path with
        | fuel + 1, some parent =>
          match files.makeDirectories fuel parent with
          | .error fault => .error fault
          | .ok files =>
            match files.makeDirectory path with
            | .ok files => .ok files
            | .error fault => if files.isDirectory path then .ok files else .error fault
        | _, _ => .error fault

/-- Writes a file, and makes the directories that it lies in. -/
def writeDeep (files : Files) (path : String) (content : Bytes) : Except FileFault Files := do
  let directory := (Path.parent? path).getD ""
  (← files.makeDirectories directory.length directory).write path content

/-- Opens the store of peers at a path, which is made if it is not there. -/
def openStore (files : Files) (path : String) : Except NetError (PeerStore × Files) :=
  let failed (fault : FileFault) : NetError :=
    .database s!"Failed to open peer database {path}: IO error: {fault.text}"
  match files.find path with
  | .ok (.store store) => .ok (store, files)
  | .ok (.file _) => .error (failed .notDirectory)
  | _ =>
    match files.makeDirectories path.length path with
    | .error fault => .error (failed fault)
    | .ok files =>
      match files.locate path with
      | .error fault => .error (failed fault)
      | .ok place => .ok ({}, files.set place (.store {}))

/-- Keeps a store at a path where there is one. -/
def keepStore (files : Files) (path : String) (store : PeerStore) : Files :=
  match files.locate path with
  | .error _ => files
  | .ok place => files.set place (.store store)

/-- Records peers in the store at a path as seen at a time. -/
def storePeers (files : Files) (path : String) (endpoints : List Endpoint) (now : Int64) :
    Except NetError Files :=
  (files.openStore path).map fun (store, files) =>
    files.keepStore path (endpoints.foldl (·.add · now) store)

end Files

end Overlay
