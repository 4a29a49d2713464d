/-!
# Durations

The text of a duration that is given in milliseconds, in the largest unit in
which it is not less than one.
-/

namespace Overlay.Text

def duration (milliseconds : Nat) : String :=
  if milliseconds = 0 then "0ns"
  else if milliseconds < 1000 then s!"{milliseconds}ms"
  else
    let whole := milliseconds / 1000
    let padded := (toString (1000 + milliseconds % 1000)).toList.drop 1
    let part := (padded.reverse.dropWhile (· = '0')).reverse
    if part = [] then s!"{whole}s" else s!"{whole}.{String.ofList part}s"

end Overlay.Text
