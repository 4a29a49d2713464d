/-!
# Values of a TOML document

A table keeps how it came to be, because that decides what later lines may add
to it: dotted keys extend tables that dotted keys made, headers state tables
that longer headers passed through, and nothing extends a table written in
braces.
-/

namespace Overlay.Toml

inductive Standing
  | braced
  | stated
  | passed
  | dotted
  deriving DecidableEq, Repr

/-- Whether the keys that remain may go on in a table that is there.  The table that takes the
value itself has to be one that dotted keys made. -/
def Standing.takes (standing : Standing) (rest : List String) : Bool :=
  standing = .dotted || (standing = .passed && 2 ≤ rest.length)

inductive Value
  | text (content : String)
  | integer (n : Int)
  | real (literal : String)
  | boolean (b : Bool)
  | moment (literal : String)
  | array (items : List Value)
  | table (standing : Standing) (entries : List (String × Value))
  | tables (earlier : List (List (String × Value))) (last : List (String × Value))

/-- The entries of a table. -/
abbrev Table := List (String × Value)

namespace Table

/-- Adds an entry under a key that is not there. -/
def put (table : Table) (key : String) (value : Value) : Option Table :=
  if (table.lookup key).isSome then none else some (table ++ [(key, value)])

def replace (table : Table) (key : String) (value : Value) : Table :=
  table.map fun entry => if entry.1 = key then (key, value) else entry

def insert (table : Table) (value : Value) : List String → Option Table
  | [] => none
  | [key] => table.put key value
  | key :: rest =>
    match table.lookup key with
    | none => (insert [] value rest).map fun below => table ++ [(key, .table .dotted below)]
    | some (.table standing below) =>
      if standing.takes rest then
        (insert below value rest).map fun below => table.replace key (.table standing below)
      else none
    | some (.tables earlier last) =>
      if 2 ≤ rest.length then
        (insert last value rest).map fun last => table.replace key (.tables earlier last)
      else none
    | some _ => none

/-- Changes the table that a header names.  Tables on the way are made where there are none, and
of several tables under one key the last is meant. -/
def alter (table : Table) (change : Table → Option Table) : List String → Option Table
  | [] => change table
  | key :: rest =>
    match table.lookup key with
    | none => (alter [] change rest).map fun below => table ++ [(key, .table .passed below)]
    | some (.table .braced _) => none
    | some (.table standing below) =>
      (alter below change rest).map fun below => table.replace key (.table standing below)
    | some (.tables earlier last) =>
      (alter last change rest).map fun last => table.replace key (.tables earlier last)
    | some _ => none

/-- States a table by a header. -/
def state (key : String) (table : Table) : Option Table :=
  match table.lookup key with
  | none => some (table ++ [(key, .table .stated [])])
  | some (.table .passed below) => some (table.replace key (.table .stated below))
  | some _ => none

/-- Starts another table under a key by a header. -/
def another (key : String) (table : Table) : Option Table :=
  match table.lookup key with
  | none => some (table ++ [(key, .tables [] [])])
  | some (.tables earlier last) => some (table.replace key (.tables (earlier ++ [last]) []))
  | some _ => none

end Table

end Overlay.Toml
