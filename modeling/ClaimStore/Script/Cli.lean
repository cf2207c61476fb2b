import ClaimStore.Cli.Commands
import ClaimStore.Script.Files
/-!
# Command-line sessions

A session runs command lines one after another on the scratch directory, as separate processes
would: each run opens the repository afresh, and the clock moves two milliseconds on after each.
`$TMP` in the settings file and in the words of a command line stands for the scratch
directory. The disk's real figures are no part of an answer: a text line `  Capacity: ...
used)` shows as `  Capacity: <disk>`, and a JSON `"capacity"` or `"usable"` count as
`"<disk>"`.
-/

namespace ClaimStore.Script

open ClaimStore.Text ClaimStore.FileSystem ClaimStore.Cli

/-- Replaces the count after each `"key": ` in a line by `"<disk>"`. -/
def maskCount (key line : String) : String :=
  let marker := "\"" ++ key ++ "\": "
  match line.splitOn marker with
  | [] => line
  | first :: rest =>
    first ++ String.join (rest.map fun piece =>
      let digits := piece.toList.takeWhile Char.isDigit
      if digits.isEmpty then marker ++ piece
      else marker ++ "\"<disk>\"" ++ String.ofList (piece.toList.drop digits.length))

/-- A line of printed output with the disk's figures masked. -/
def maskFiguresLine (line : String) : String :=
  if line.startsWith "  Capacity: " && line.endsWith " used)" then "  Capacity: <disk>"
  else maskCount "usable" (maskCount "capacity" line)

/-- Printed output with the disk's figures masked. -/
def maskFigures (out : String) : String := "\n".intercalate ((out.splitOn "\n").map maskFiguresLine)

/-- A run's outcome as an answer. -/
def outcomeAnswer (o : Outcome) : Json :=
  match o.error with
  | none => obj [("ok", .bool true), ("stdout", .str (maskFigures o.stdout))]
  | some e => obj [("ok", .bool false), ("stdout", .str (maskFigures o.stdout)), ("error", .str e)]

/-- A word of a command line, with `$TMP` standing for the scratch directory. -/
def argWord : Json → Read String
  | .str s => pure (s.replace "$TMP" scratchName)
  | _ => throw "args must be strings"

/-- Answers one step of a command-line session. -/
def cliStep (h : Host) (j : Json) : Read (Json × Host) := do
  let op ← text j "op"
  match fileStep h.disk h.now op j with
  | some reply => let (a, d) ← reply; pure (a, { h with disk := d })
  | none =>
  match op with
  | "run" =>
    let args ← (← list j "args").mapM argWord
    let (answer, h) := match parseArgs args with
      | .error r => (obj [("error", .str "CliUsage"), ("kind", .str r.name)], h)
      | .ok inv => let (o, h) := runInvocation inv h; (outcomeAnswer o, h)
    pure (answer, { h with now := h.now + 2 })
  | other => throw ("unknown step " ++ other)

/-- A command-line session as an answer. -/
def cliAnswer (j : Json) : Read Json := do
  let steps ← list j "steps"
  let config ← optional j "config_toml" asText
  let d := Disk.fresh
  let written := match config with
    | some text =>
      d.putFile (scratchPath "crepo.toml") (text.replace "$TMP" scratchName).toUTF8 startMillis
    | none => .ok d
  match written with
  | .error e => pure (ioAnswer e)
  | .ok d =>
    match ← writeFiles j d startMillis with
    | .error e => pure (ioAnswer e)
    | .ok d => pure (results (runSteps cliStep (Host.create d startMillis) steps))

end ClaimStore.Script
