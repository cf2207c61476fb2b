import ClaimStore.Disk.Basic
import ClaimStore.Script.Payload
import ClaimStore.Script.Clock
import ClaimStore.Text.Quoted
/-!
# The scratch directory of a session

Requests name files by paths relative to the session's scratch directory. Such a path may not
be absolute, and a `..` in it may not climb to the scratch directory or above it. Steps list,
write, remove and read files there; a listing is ordered by path as answers show it (clock
values masked), ties by the entry's text.
-/

namespace ClaimStore.Script

open ClaimStore.Text ClaimStore.FileSystem

/-- Whether a relative path stays strictly below the directory it starts from at every `..`. -/
def staysBelow (rel : String) : Bool :=
  let step : Option Nat → String → Option Nat := fun depth seg =>
    match depth with
    | none => none
    | some n =>
      if seg = "" || seg = "." then some n
      else if seg = ".." then (if n ≥ 2 then some (n - 1) else none)
      else some (n + 1)
  ((rel.splitOn "/").foldl step (some 0)).isSome

/-- The full path of a path under the scratch directory. -/
def scratchPath (rel : String) : String := scratchName ++ "/" ++ rel

/-- A path under the scratch directory from the field `k`. -/
def readScratchPath (j : Json) (k : String) : Read String := do
  let rel ← text j k
  if rel.startsWith "/" || !staysBelow rel then throw ("unsafe path " ++ quote rel)
  pure (scratchPath rel)

/-- A failed operation on files as an answer. -/
def ioAnswer (e : IoError) : Json :=
  obj [("error", .str "Io"), ("io_kind", .str e.kind), ("message", .str e.message)]

/-- Removes a file, or a directory with everything in it. -/
def removePath (d : Disk) (path : String) : IoResult Disk := do
  let p ← Disk.placeOf path
  match ← d.stat p with
  | .dir => d.removeTree p
  | .file _ => d.removeFile p

/-- Reads a whole file. -/
def readFile (d : Disk) (path : String) : IoResult ByteArray := do
  match ← d.openRead (← Disk.placeOf path) with
  | .file i => pure (d.bytes i)
  | .dir => throw .isADirectory

/-- The files of a request's `files` field, written in order. -/
def writeFiles (j : Json) (d : Disk) (now : Nat) : Read (IoResult Disk) := do
  let entries ← (← optional j "files" asList).getD [] |>.mapM fun f => do
    pure (← readScratchPath f "path", ← readPayload f)
  pure (entries.foldlM (fun d (path, bytes) => d.putFile path bytes now) d)

/-- The entries below the scratch directory as a listing: files with their sizes, and
directories when asked for. -/
def listing (d : Disk) (dirs : Bool) : Json :=
  let entries := (d.below scratchPlace).filterMap fun (p, n) =>
    let rel := "/".intercalate (p.drop scratchPlace.length)
    match n with
    | .file i => some (obj [("path", .str rel), ("size", .nat (d.bytes i).size)])
    | .dir => if dirs then some (obj [("path", .str rel), ("dir", .bool true)]) else none
  let key : Json → String × String := fun e =>
    (match e.field? "path" with
      | some (.str s) => maskText s
      | _ => "", (maskClock e).compact)
  let sorted := entries.mergeSort fun a b =>
    let (ka, kb) := (key a, key b)
    decide (ka.1 < kb.1) || (ka.1 == kb.1 && decide (ka.2 ≤ kb.2))
  obj [("files", .arr sorted)]

/-- Answers a step on the scratch directory (`ls`, `put_file`, `remove_path`, `read_file`);
`none` for other steps. -/
def fileStep (d : Disk) (now : Nat) (op : String) (j : Json) : Option (Read (Json × Disk)) :=
  match op with
  | "ls" => some do pure (listing d (← flagOr j "dirs" false), d)
  | "put_file" => some do
    let path ← readScratchPath j "path"
    let bytes ← readPayload j
    pure (match d.putFile path bytes now with
      | .ok d => (done, d)
      | .error e => (ioAnswer e, d))
  | "remove_path" => some do
    let path ← readScratchPath j "path"
    pure (match removePath d path with
      | .ok d => (done, d)
      | .error e => (ioAnswer e, d))
  | "read_file" => some do
    let path ← readScratchPath j "path"
    pure (match readFile d path with
      | .ok bs => (obj (payloadFields bs), d)
      | .error e => (ioAnswer e, d))
  | _ => none

end ClaimStore.Script
