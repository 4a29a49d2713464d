import Overlay.Toml.Scalar

/-!
# Reading a TOML document

A document is a list of lines: headers, which name the table that the next
lines are in, and keys with values.  Reading answers the entries of the
document, or nothing if it is not well formed.
-/

namespace Overlay.Toml

/-- The bound on the nesting of arrays and braces and on the length of dotted keys. -/
def nestingLimit : Nat := 80

/-- Whether a character may stand in a key without quotes. -/
def isBare (c : Char) : Bool :=
  ('a' ≤ c && c ≤ 'z') || ('A' ≤ c && c ≤ 'Z') || ('0' ≤ c && c ≤ '9') || c = '_' || c = '-'

def keyPart (chars : List Char) : Option (String × List Char) :=
  if chars.head? = some '"' || chars.head? = some '\'' then string? chars
  else
    let part := chars.takeWhile isBare
    if part = [] then none else some (String.ofList part, chars.drop part.length)

/-- Reads a key of at most as many parts, with the space around it. -/
def key : Nat → Scan (List String)
  | 0, _ => none
  | parts + 1, chars => do
    let (part, rest) ← keyPart (skipSpace chars)
    match skipSpace rest with
    | '.' :: rest => (key parts rest).map fun (names, rest) => (part :: names, rest)
    | rest => some ([part], rest)

/-- Reads a key within its limit. -/
def boundedKey : Scan (List String) :=
  key (nestingLimit - 1)

mutual

/-- Reads a value; `depth` bounds what it may hold of arrays and braces. -/
def value (fuel depth : Nat) (chars : List Char) : Option (Value × List Char) :=
  match fuel with
  | 0 => none
  | fuel + 1 =>
    match depth, chars with
    | depth + 1, '[' :: rest =>
      (items fuel depth (skipLines rest.length rest)).map fun (values, rest) =>
        (.array values, rest)
    | depth + 1, '\x7b' :: rest =>
      match skipSpace rest with
      | '\x7d' :: rest => some (.table .braced [], rest)
      | rest => (pairs fuel depth [] rest).map fun (entries, rest) => (.table .braced entries, rest)
    | 0, '[' :: _ => none
    | 0, '\x7b' :: _ => none
    | _, chars => scalar chars

/-- Reads the values of an array up to its end. -/
def items (fuel depth : Nat) (chars : List Char) : Option (List Value × List Char) :=
  match fuel with
  | 0 => none
  | fuel + 1 =>
    match chars with
    | ']' :: rest => some ([], rest)
    | chars =>
      match value fuel depth chars with
      | none => none
      | some (item, rest) =>
        match skipLines rest.length rest with
        | ']' :: rest => some ([item], rest)
        | ',' :: rest =>
          (items fuel depth (skipLines rest.length rest)).map fun (more, rest) =>
            (item :: more, rest)
        | _ => none

/-- Reads the keys and values in braces up to their end. -/
def pairs (fuel depth : Nat) (entries : Table) (chars : List Char) :
    Option (Table × List Char) :=
  match fuel with
  | 0 => none
  | fuel + 1 =>
    match boundedKey chars with
    | some (names, '=' :: rest) =>
      match value fuel depth (skipSpace rest) with
      | none => none
      | some (v, rest) =>
        match entries.insert v names with
        | none => none
        | some entries =>
          match skipSpace rest with
          | '\x7d' :: rest => some (entries, rest)
          | ',' :: rest => pairs fuel depth entries rest
          | _ => none
    | _ => none

end

/-- Reads the end of a line with the comment in front of it. -/
def lineEnd (chars : List Char) : Option (List Char) :=
  let rest := skipSpace chars
  let rest := if rest.head? = some '#' then rest.dropWhile isPlain else rest
  if rest = [] then some [] else newline? rest

/-- A document while it is read: its entries, and the header that the lines are under. -/
structure Draft where
  entries : Table := []
  header : List String := []

/-- Reads a line with a header, behind its first bracket. -/
def Draft.readHeader (draft : Draft) (chars : List Char) : Option (Draft × List Char) := do
  let (several, rest) := match chars with
    | '[' :: rest => (true, rest)
    | rest => (false, rest)
  let (names, rest) ← boundedKey rest
  let rest ← mark ']' rest
  let rest ← if several then mark ']' rest else some rest
  let rest ← lineEnd rest
  let last ← names.getLast?
  let change := if several then Table.another last else Table.state last
  let entries ← draft.entries.alter change names.dropLast
  return ({ entries, header := names }, rest)

/-- Reads a line with a key and a value. -/
def Draft.readPair (draft : Draft) (chars : List Char) : Option (Draft × List Char) := do
  let (names, rest) ← boundedKey chars
  let rest ← mark '=' rest
  let (v, rest) ← value (2 * rest.length + 2) (nestingLimit - 1) (skipSpace rest)
  let rest ← lineEnd rest
  let entries ← draft.entries.alter (Table.insert · v names) draft.header
  return ({ draft with entries }, rest)

/-- Reads lines up to the end of a document. -/
def Draft.readLines (draft : Draft) : Nat → List Char → Option Table
  | 0, _ => none
  | fuel + 1, chars =>
    match skipLines chars.length chars with
    | [] => some draft.entries
    | '[' :: rest =>
      match draft.readHeader rest with
      | none => none
      | some (draft, rest) => draft.readLines fuel rest
    | rest =>
      match draft.readPair rest with
      | none => none
      | some (draft, rest) => draft.readLines fuel rest

def read (text : String) : Option Table :=
  let chars := match text.toList with
    | '\ufeff' :: rest => rest
    | chars => chars
  Draft.readLines {} (chars.length + 1) chars

end Overlay.Toml
