import Overlay.Text.Decimal
import Overlay.Toml.Value

/-!
# Scalars of a TOML document

Strings, numbers, booleans and moments, each read from the front of a text.
-/

namespace Overlay.Toml

/-- Reads something from the front of a text. -/
abbrev Scan (α : Type) := List Char → Option (α × List Char)

/-- Whether a character may stand in a comment and, but for its quotes, in a string. -/
def isPlain (c : Char) : Bool :=
  c = '\t' || (' ' ≤ c && c ≠ '\x7f')

def isSpace (c : Char) : Bool :=
  c = ' ' || c = '\t'

def skipSpace (chars : List Char) : List Char :=
  chars.dropWhile isSpace

def newline? : List Char → Option (List Char)
  | '\n' :: rest => some rest
  | '\r' :: '\n' :: rest => some rest
  | _ => none

/-- Skips space, line ends and comments; `fuel` bounds their number. -/
def skipLines : Nat → List Char → List Char
  | 0, chars => chars
  | fuel + 1, chars =>
    match skipSpace chars with
    | '#' :: rest =>
      match newline? (rest.dropWhile isPlain) with
      | some rest => skipLines fuel rest
      | none => rest.dropWhile isPlain
    | chars =>
      match newline? chars with
      | some rest => skipLines fuel rest
      | none => chars

/-! ## Strings -/

/-- The number of a fixed count of hexadecimal digits. -/
def hexNumber (count : Nat) (chars : List Char) : Option Nat :=
  let digits := (chars.take count).filterMap (Text.digitValue? 16)
  if digits.length = count then some (digits.foldl (16 * · + ·) 0) else none

/-- Reads the character of an escape, behind the backslash. -/
def escaped : Scan Char
  | 'b' :: rest => some ('\x08', rest)
  | 't' :: rest => some ('\t', rest)
  | 'n' :: rest => some ('\n', rest)
  | 'f' :: rest => some ('\x0c', rest)
  | 'r' :: rest => some ('\r', rest)
  | '"' :: rest => some ('"', rest)
  | '\\' :: rest => some ('\\', rest)
  | 'u' :: rest => (hexNumber 4 rest).bind fun n => scalar n (rest.drop 4)
  | 'U' :: rest => (hexNumber 8 rest).bind fun n => scalar n (rest.drop 8)
  | _ => none
where
  /-- The character of a code point, unless it is a surrogate or too large. -/
  scalar (n : Nat) (rest : List Char) : Option (Char × List Char) :=
    if n.isValidChar then some (Char.ofNat n, rest) else none

/-- Reads the rest of a string with escapes on one line. -/
def lineText : Nat → Scan (List Char)
  | 0, _ => none
  | _ + 1, [] => none
  | _ + 1, '"' :: rest => some ([], rest)
  | fuel + 1, '\\' :: rest =>
    (escaped rest).bind fun (c, rest) => (lineText fuel rest).map fun (cs, rest) => (c :: cs, rest)
  | fuel + 1, c :: rest =>
    if isPlain c then (lineText fuel rest).map fun (cs, rest) => (c :: cs, rest) else none

/-- Reads the rest of a string without escapes on one line. -/
def lineLiteral : Scan (List Char)
  | [] => none
  | c :: rest =>
    if c = '\'' then some ([], rest)
    else if isPlain c then (lineLiteral rest).map fun (cs, rest) => (c :: cs, rest)
    else none

/-- Skips the space and the line ends behind a backslash that ends a line. -/
def continued? (fuel : Nat) (chars : List Char) : Option (List Char) :=
  (newline? (skipSpace chars)).map (skipBlank fuel)
where
  /-- Skips space and line ends. -/
  skipBlank : Nat → List Char → List Char
    | 0, chars => chars
    | fuel + 1, chars =>
      match newline? (skipSpace chars) with
      | some rest => skipBlank fuel rest
      | none => skipSpace chars

/-- Reads the rest of a string over several lines, which three of the quotes end.  Up to two
quotes in front of them belong to the string. -/
def linesText (quote : Char) (escapes : Bool) : Nat → Scan (List Char)
  | 0, _ => none
  | _ + 1, [] => none
  | fuel + 1, c :: rest =>
    if c = quote then
      let quotes := 1 + (rest.takeWhile (· = quote)).length
      let rest := rest.dropWhile (· = quote)
      if quotes < 3 then
        (linesText quote escapes fuel rest).map fun (cs, rest) =>
          (List.replicate quotes quote ++ cs, rest)
      else
        let inner := min (quotes - 3) 2
        some (List.replicate inner quote, List.replicate (quotes - 3 - inner) quote ++ rest)
    else if escapes && c = '\\' then
      match continued? fuel rest with
      | some rest => linesText quote escapes fuel rest
      | none =>
        (escaped rest).bind fun (c, rest) =>
          (linesText quote escapes fuel rest).map fun (cs, rest) => (c :: cs, rest)
    else
      match newline? (c :: rest) with
      | some rest => (linesText quote escapes fuel rest).map fun (cs, rest) => ('\n' :: cs, rest)
      | none =>
        if isPlain c then
          (linesText quote escapes fuel rest).map fun (cs, rest) => (c :: cs, rest)
        else none

def string? : Scan String
  | '"' :: rest => (lineText (rest.length + 1) rest).map fun (cs, rest) => (String.ofList cs, rest)
  | '\'' :: rest => (lineLiteral rest).map fun (cs, rest) => (String.ofList cs, rest)
  | _ => none

def anyString? : Scan String
  | '"' :: '"' :: '"' :: rest => lines '"' true rest
  | '\'' :: '\'' :: '\'' :: rest => lines '\'' false rest
  | chars => string? chars
where
  /-- Reads a string over several lines, without a line end at its start. -/
  lines (quote : Char) (escapes : Bool) (rest : List Char) : Option (String × List Char) :=
    let rest := (newline? rest).getD rest
    (linesText quote escapes (rest.length + 1) rest).map fun (cs, rest) => (String.ofList cs, rest)

/-! ## Numbers -/

/-- Reads digits in a base, with single underscores between them, after a first one. -/
def moreDigits (base : Nat) : Scan (List Char)
  | [] => some ([], [])
  | '_' :: c :: rest =>
    if (Text.digitValue? base c).isSome then
      (moreDigits base rest).map fun (cs, rest) => (c :: cs, rest)
    else none
  | c :: rest =>
    if c = '_' then none
    else if (Text.digitValue? base c).isSome then
      (moreDigits base rest).map fun (cs, rest) => (c :: cs, rest)
    else some ([], c :: rest)

def digits (base : Nat) : Scan (List Char)
  | [] => none
  | c :: rest =>
    if (Text.digitValue? base c).isSome then
      (moreDigits base rest).map fun (cs, rest) => (c :: cs, rest)
    else none

/-- The value of digits. -/
def valueOf (base : Nat) (cs : List Char) : Nat :=
  (cs.filterMap (Text.digitValue? base)).foldl (base * · + ·) 0

def sign : List Char → Bool × List Char
  | '-' :: rest => (true, rest)
  | '+' :: rest => (false, rest)
  | rest => (false, rest)

/-- Reads decimal digits without needless zeros. -/
def wholeDigits : Scan (List Char)
  | '0' :: rest => some (['0'], rest)
  | chars => digits 10 chars

/-- How many negative integers fit in sixty-four bits. -/
def integerBound : Nat := 9223372036854775808

/-- An integer that fits in sixty-four bits. -/
def boundedInteger (negative : Bool) (n : Nat) : Option Value :=
  if negative then if n ≤ integerBound then some (.integer (-n)) else none
  else if n < integerBound then some (.integer n) else none

/-- Reads the part of a real number behind its point. -/
def fraction : List Char → Option (List Char × List Char)
  | '.' :: rest => digits 10 rest
  | rest => some ([], rest)

def exponent : Scan (Option Int)
  | c :: rest =>
    if c = 'e' || c = 'E' then
      let (negative, rest) := sign rest
      (digits 10 rest).map fun (cs, rest) =>
        let n : Nat := valueOf 10 cs
        (some (if negative then -n else n), rest)
    else some (none, c :: rest)
  | [] => some (none, [])

/-- Whether a positive real number `n` times a power of ten is rounded to infinity in sixty-four
bits. -/
def isInfinite (n : Nat) (power : Int) : Bool :=
  let bound := Nat.pow 2 1024 - Nat.pow 2 970
  let length := (toString n).length
  if n = 0 then false
  else if 400 < length + power then true
  else if length + power < 300 then false
  else if 0 ≤ power then bound ≤ n * Nat.pow 10 power.toNat
  else bound * Nat.pow 10 (-power).toNat ≤ n

/-- Reads an integer or a real number in decimal digits. -/
def decimalNumber (chars : List Char) : Option (Value × List Char) := do
  let (negative, rest) := sign chars
  let (whole, rest) ← wholeDigits rest
  let (part, rest) ← fraction rest
  let (power, rest) ← exponent rest
  if part = [] ∧ power = none then
    let value ← boundedInteger negative (valueOf 10 whole)
    return (value, rest)
  if !negative && isInfinite (valueOf 10 (whole ++ part)) (power.getD 0 - part.length) then none
  return (.real (String.ofList (chars.take (chars.length - rest.length))), rest)

/-- Reads an integer in a base behind its mark. -/
def basedNumber (base : Nat) (chars : List Char) : Option (Value × List Char) := do
  let (cs, rest) ← digits base chars
  let value ← boundedInteger false (valueOf base cs)
  return (value, rest)

def number : Scan Value
  | '0' :: 'x' :: rest => basedNumber 16 rest
  | '0' :: 'o' :: rest => basedNumber 8 rest
  | '0' :: 'b' :: rest => basedNumber 2 rest
  | chars => decimalNumber chars

/-! ## Moments -/

/-- Reads a fixed count of digits as a number between two bounds. -/
def field (count low high : Nat) (chars : List Char) : Option (Nat × List Char) :=
  let cs := (chars.take count).filterMap (Text.digitValue? 10)
  let n := cs.foldl (10 * · + ·) 0
  if cs.length = count ∧ low ≤ n ∧ n ≤ high then some (n, chars.drop count) else none

/-- Reads one character. -/
def mark (c : Char) : List Char → Option (List Char)
  | [] => none
  | d :: rest => if c = d then some rest else none

/-- The number of days of a month. -/
def daysOf (year month : Nat) : Nat :=
  if month = 2 then
    if year % 4 = 0 ∧ (year % 100 ≠ 0 ∨ year % 400 = 0) then 29 else 28
  else if month ∈ [4, 6, 9, 11] then 30
  else 31

def date (chars : List Char) : Option (List Char) := do
  let (year, rest) ← field 4 0 9999 chars
  let (month, rest) ← field 2 1 12 (← mark '-' rest)
  let (_, rest) ← field 2 1 (daysOf year month) (← mark '-' rest)
  return rest

def timeOfDay (chars : List Char) : Option (List Char) := do
  let (_, rest) ← field 2 0 23 chars
  let (_, rest) ← field 2 0 59 (← mark ':' rest)
  let (_, rest) ← field 2 0 60 (← mark ':' rest)
  match rest with
  | '.' :: rest =>
    let after := rest.dropWhile (fun c => (Text.digitValue? 10 c).isSome)
    if after.length = rest.length then none else some after
  | rest => some rest

/-- Reads the distance of a time zone, if there is one. -/
def zone (chars : List Char) : Option (List Char) :=
  match chars with
  | [] => some []
  | c :: rest =>
    if c = 'Z' || c = 'z' then some rest
    else if c = '+' || c = '-' then do
      let (_, rest) ← field 2 0 23 rest
      let (_, rest) ← field 2 0 59 (← mark ':' rest)
      return rest
    else some chars

/-- Whether a text starts with a count of digits and a mark. -/
def startsField (count : Nat) (c : Char) (chars : List Char) : Bool :=
  ((chars.take count).filterMap (Text.digitValue? 10)).length = count &&
    (chars.drop count).head? = some c

/-- Reads a moment: a date, a time of day, or both. -/
def moment (chars : List Char) : Option (Value × List Char) := do
  let rest ←
    if startsField 4 '-' chars then do
      let rest ← date chars
      match rest with
      | c :: after =>
        if (c = 'T' || c = 't' || c = ' ') && startsField 2 ':' after then
          (timeOfDay after).bind zone
        else some rest
      | [] => some []
    else timeOfDay chars
  return (.moment (String.ofList (chars.take (chars.length - rest.length))), rest)

/-! ## Scalars -/

def word (w : String) (value : Value) (chars : List Char) : Option (Value × List Char) :=
  if w.toList.isPrefixOf chars then some (value, chars.drop w.length) else none

def scalar (chars : List Char) : Option (Value × List Char) :=
  let unsigned := (sign chars).2
  match unsigned with
  | 'i' :: _ => word "inf" (.real "inf") unsigned
  | 'n' :: _ => word "nan" (.real "nan") unsigned
  | _ =>
    match chars with
    | 't' :: _ => word "true" (.boolean true) chars
    | 'f' :: _ => word "false" (.boolean false) chars
    | _ =>
      if chars.head? = some '"' || chars.head? = some '\'' then
        (anyString? chars).map fun (s, rest) => (.text s, rest)
      else if startsField 4 '-' chars || startsField 2 ':' chars then moment chars
      else number chars

end Overlay.Toml
