import ClaimStore.Text.Json
import ClaimStore.Disk.Basic
/-!
# The session clock in answers

Every session's clock starts at the same instant, in milliseconds since the epoch. Answers
show values taken from the clock as `T`: a JSON integer near the clock becomes the string
`"T"`, and a run of digits near the clock inside a string becomes the letter `T`. Near means
from five seconds before the start to an hour after it; the inputs hold no such values.
Answers show the path of the scratch directory as `<tmp>`.
-/

namespace ClaimStore.Script

open ClaimStore.Text

/-- When every session starts, in milliseconds since the epoch. -/
def startMillis : Nat := 1763000000000

/-- Whether a value may have come from the clock. -/
def nearClock (n : Nat) : Bool := startMillis - 5000 ≤ n && n ≤ startMillis + 3600000

/-- The value of a run of decimal digits, most significant first. -/
def digitRunValue (run : List Char) : Nat := run.foldl (fun n d => 10 * n + (d.toNat - 48)) 0

/-- A text with its runs of digits near the clock replaced by `T`; `run` holds the digits
read so far, last first. -/
def maskRuns : List Char → List Char → String → String
  | [], run, acc => acc ++ maskRun run.reverse
  | c :: rest, run, acc =>
    if c.isDigit then maskRuns rest (c :: run) acc
    else maskRuns rest [] ((acc ++ maskRun run.reverse).push c)
where
  /-- One run of digits, masked when near the clock. -/
  maskRun (run : List Char) : String :=
    if run.isEmpty then "" else if nearClock (digitRunValue run) then "T" else String.ofList run

/-- A text with the scratch directory's path and values near the clock masked. -/
def maskText (s : String) : String :=
  maskRuns (s.replace FileSystem.scratchName "<tmp>").toList [] ""

/-- An answer with values near the clock masked. -/
def maskClock : Json → Json
  | .int n => if 0 ≤ n && nearClock n.toNat then .str "T" else .int n
  | .str s => .str (maskText s)
  | .arr xs => .arr (maskItems xs)
  | .obj kvs => .obj (maskFields kvs)
  | j => j
where
  maskItems : List Json → List Json
    | [] => []
    | j :: rest => maskClock j :: maskItems rest
  maskFields : List (String × Json) → List (String × Json)
    | [] => []
    | (k, v) :: rest => (k, maskClock v) :: maskFields rest

end ClaimStore.Script
