import Overlay.Pool.Basic
import Overlay.Text.Blank

/-!
# Logs

A line of a log has a level and a target.  A filter keeps the lines up to a
level; the rule with the longest name that the target begins with decides.
-/

namespace Overlay

/-- How much a line matters. -/
inductive LogLevel
  | error
  | warn
  | info
  | debug
  | trace
  deriving DecidableEq, Repr

namespace LogLevel

def all : List LogLevel := [.error, .warn, .info, .debug, .trace]

def name : LogLevel → String
  | error => "ERROR"
  | warn => "WARN"
  | info => "INFO"
  | debug => "DEBUG"
  | trace => "TRACE"

/-- How many levels a line of this level needs to be open. -/
def rank : LogLevel → Nat
  | error => 1
  | warn => 2
  | info => 3
  | debug => 4
  | trace => 5

end LogLevel

/-- Which lines are kept: how many levels are open, for targets that begin with a name, and a text
that each line must contain. -/
structure LogFilter where
  rules : List (String × Nat) := [("", LogLevel.info.rank)]
  wanted : String := ""
  deriving Repr

namespace LogFilter

/-- How many levels a word opens. -/
def openLevels? (word : String) : Option Nat :=
  ("OFF" :: LogLevel.all.map (·.name)).idxOf? (String.ofList (word.toList.map Char.toUpper))

/-- The rule that a directive states: a level for all targets, a name alone for all levels, or
both with an equals sign between them. -/
def readRule (directive : String) : Option (String × Nat) :=
  let trim (text : String) : String := String.ofList (Text.trimBlank text.toList)
  let everything := LogLevel.trace.rank
  match (trim directive).splitOn "=" with
  | [""] => none
  | [word] => some <| match openLevels? word with
    | some levels => ("", levels)
    | none => (word, everything)
  | [name, level] =>
    if trim level = "" then some (name, everything)
    else (openLevels? (trim level)).map fun levels => (name, levels)
  | _ => none

/-- Puts a rule in the place of the one of the same name. -/
def insert (rules : List (String × Nat)) (rule : String × Nat) : List (String × Nat) :=
  rule :: rules.filter (·.1 ≠ rule.1)

/-- Adds what a text asks for: directives between commas, and behind a slash the text that lines
must contain. -/
def adjust (filter : LogFilter) (text : String) : LogFilter :=
  let directives (list : String) : List (String × Nat) := (list.splitOn ",").filterMap readRule
  match text.splitOn "/" with
  | [list] => { rules := (directives list).foldl insert filter.rules }
  | [list, wanted] => { rules := (directives list).foldl insert filter.rules, wanted }
  | _ => { filter with wanted := "" }

def levelsFor (filter : LogFilter) (target : String) : Nat :=
  let best := (filter.rules.filter fun rule => target.startsWith rule.1).foldl
    (fun (best : String × Nat) rule => if best.1.length ≤ rule.1.length then rule else best) ("", 0)
  best.2

def keeps (filter : LogFilter) (target : String) (level : LogLevel) (line : String) : Bool :=
  level.rank ≤ filter.levelsFor target &&
    (filter.wanted = "" || 1 < (line.splitOn filter.wanted).length)

end LogFilter

/-- What a node logs of an event, with so many members after it. -/
def PoolEvent.logText (members : Nat) : PoolEvent → String
  | .joined id e => s!"Peer #{id} joined from {e.display} ({members} connected)"
  | .left id e => s!"Peer #{id} at {e.display} left ({members} connected)"
  | .message id e m =>
    s!"Message type {m.tag} ({m.payload.size} bytes) from #{id} {e.display}"

end Overlay
