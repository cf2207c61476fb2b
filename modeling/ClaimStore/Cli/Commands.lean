import ClaimStore.Cli.Args
import ClaimStore.Repo.Copy
import ClaimStore.Repo.Open
import ClaimStore.Number.Fixed
import ClaimStore.Text.Json
/-!
# Running commands

Each command opens the repository afresh: it reads the settings file, opens the repository
with a fresh tracker, no background work and the disk's own figures, runs, and shuts the
repository down. What the command prints goes to standard output; a failure ends it with a
sentence that chains the failure's causes, outermost first, each after a colon. Results are
printed as text for people, or as indented JSON.
-/

namespace ClaimStore.Cli

open ClaimStore.Claim ClaimStore.Config ClaimStore.FileSystem ClaimStore.Text

/-- What a run printed, and the sentence of the failure that ended it. -/
structure Outcome where
  stdout : String
  error : Option String := none
  deriving Repr

/-- The mark of a successful step. -/
def tick : String := "✓"

/-- Divides by 1024 while the value is at least 1024, at most `fuel` times; answers the value
and the number of divisions. -/
def scaleDown (value : Float) (unit : Nat) : Nat → Float × Nat
  | 0 => (value, unit)
  | fuel + 1 => if value ≥ 1024.0 then scaleDown (value / 1024.0) (unit + 1) fuel else (value, unit)

/-- A byte count for people: plain bytes below 1 KB, otherwise one decimal in the largest unit
up to TB that keeps the value at least one. -/
def humanBytes (n : Nat) : String :=
  let (value, unit) := scaleDown (Float.ofNat n) 0 4
  if unit = 0 then toString n ++ " B"
  else Number.fixed value 1 ++ " " ++ ["B", "KB", "MB", "GB", "TB"].getD unit "TB"

/-- A repository error with its causes: an error on files has the system's sentence as its
cause. -/
def chain (e : StoreError) : String :=
  match e with
  | .io i => e.message ++ ": " ++ i.message
  | _ => e.message

/-- The text of a file, or the sentence of why it cannot be read. -/
def readText (d : Disk) (path : String) : Except String String :=
  match (do d.openRead (← Disk.placeOf path)) with
  | .error e => .error e.message
  | .ok .dir => .error IoError.isADirectory.message
  | .ok (.file i) =>
    match String.fromUTF8? (d.bytes i) with
    | some text => .ok text
    | none => .error "stream did not contain valid UTF-8"

/-- The settings in a TOML file. -/
def loadSettings (d : Disk) (path : String) : Except String Settings :=
  match readText d path with
  | .error e => .error ("configuration error: cannot read " ++ path ++ ": " ++ e)
  | .ok text =>
    match Settings.ofToml text with
    | some s => .ok s
    | none => .error "configuration error: TOML parse error"

/-- A JSON value as printed: indented, on its own line. -/
def printJson (j : Json) : String := Json.pretty 0 j ++ "\n"

/-- A run that printed `stdout`. -/
def printed (stdout : String) : Outcome := { stdout }

/-- A run that failed before printing. -/
def failed (sentence : String) : Outcome := { stdout := "", error := some sentence }

/-- An action's failure as a run's. -/
def orFail {α : Type} (a : Action α) (k : α → Action Outcome) : Action Outcome := do
  match ← Action.attempt a with
  | .ok v => k v
  | .error e => pure (failed (chain e))

namespace Perform

/-- `init`: the containers, which opening laid out. -/
def init (s : Resolved) (format : Format) : Outcome :=
  match format with
  | .json => printed (printJson (.arr (s.containers.map fun (n, r) => .arr [.str n, .str r])))
  | .text =>
    printed (tick ++ " Initialized content repository (" ++ toString s.sections ++
      " sections per container)\n" ++
      String.join (s.containers.map fun (n, r) => "  " ++ n ++ " " ++ r ++ "\n"))

/-- One container's figures. -/
structure Figures where
  name : String
  root : String
  capacity : Nat
  usable : Nat
  archived : Nat
  active : Nat

/-- The figures of each container, in order. -/
def figures : List (String × String) → Action (List Figures)
  | [] => pure []
  | (name, root) :: rest => do
    let f : Figures :=
      { name, root, capacity := ← Action.capacityOf name, usable := ← Action.usableOf name,
        archived := ← Action.archivedCount name, active := (← Action.activeClaims name).length }
    pure (f :: (← figures rest))

/-- The share of the capacity in use, in percent. -/
def usedPercent (f : Figures) : Float :=
  if f.capacity = 0 then 0.0
  else 100.0 * Float.ofNat (f.capacity - min f.usable f.capacity) / Float.ofNat f.capacity

/-- `stats`: each container's space and claim counts. -/
def stats (s : Resolved) (format : Format) : Action Outcome :=
  orFail (figures s.containers) fun fs => pure <| printed <|
    match format with
    | .json => printJson (.arr (fs.map fun f =>
        .obj [("name", .str f.name), ("root", .str f.root), ("capacity", .nat f.capacity),
          ("usable", .nat f.usable), ("archived_files", .nat f.archived),
          ("active_claims", .nat f.active)]))
    | .text => String.join (fs.map fun f =>
        f.name ++ " " ++ f.root ++ "\n" ++
        "  Capacity: " ++ humanBytes f.capacity ++ "  Usable: " ++ humanBytes f.usable ++ "  (" ++
          Number.fixed (usedPercent f) 1 ++ "% used)\n" ++
        "  Resource claims: " ++ toString f.active ++ " live, " ++ toString f.archived ++
          " archived\n")

/-- `import`: stores a file as a new claim. A claim whose import fails loses its claimant. -/
def importFile (file : String) (lossTolerant : Bool) (format : Format) : Action Outcome := do
  let d := (← Action.host).disk
  match (do d.openRead (← Disk.placeOf file)) with
  | .error e => pure (failed ("opening " ++ file ++ ": " ++ e.message))
  | .ok source =>
  orFail (Action.create lossTolerant) fun
  | .blocked => pure (failed StoreError.shutdown.message)
  | .claim c => do
    match ← Action.attempt (Action.importNode c source) with
    | .error e =>
      let _ ← Action.tracking (·.decrement c.resource)
      pure (failed ("importing " ++ file ++ ": " ++ chain e))
    | .ok n =>
      let k := ((← Action.host).content c).coordinates
      pure <| printed <| match format with
        | .json => printJson (.obj [("container", .str k.container), ("section", .str k.sectionName),
            ("id", .str k.id), ("offset", .nat k.offset), ("length", .int k.length)])
        | .text =>
          tick ++ " Imported " ++ humanBytes n ++ " from " ++ file ++ "\n" ++
          "  Container: " ++ k.container ++ "\n" ++
          "  Section:   " ++ k.sectionName ++ "\n" ++
          "  Id:        " ++ k.id ++ "\n" ++
          "  Offset:    " ++ toString k.offset ++ "\n" ++
          "  Length:    " ++ toString k.length ++ "\n"

/-- `export`: copies a claim's bytes to a file. -/
def exportClaim (k : Coordinates) (dest : String) (append : Bool) : Action Outcome := do
  match k.toContent with
  | .error e => pure (failed e.message)
  | .ok content =>
    let (c, h) := (← Action.host).adopt content
    Action.modifyHost fun _ => h
    match ← Action.attempt (Action.exportToPath c dest append) with
    | .error e => pure (failed ("exporting " ++ content.display ++ ": " ++ chain e))
    | .ok n => pure (printed (tick ++ " Exported " ++ humanBytes n ++ " to " ++ dest ++ "\n"))

/-- `cleanup`: archives or removes the files no claim refers to. -/
def cleanup (format : Format) : Action Outcome := do
  let r ← Action.cleanup
  pure <| printed <| match format with
    | .json => printJson (.obj [("scanned", .nat r.scanned), ("archived", .nat r.archived),
        ("removed", .nat r.removed), ("failed", .nat r.failed)])
    | .text =>
      (if r.failed = 0 then tick else "!") ++ " Cleanup scanned " ++ toString r.scanned ++
        " files: " ++ toString r.archived ++ " archived, " ++ toString r.removed ++ " removed, " ++
        toString r.failed ++ " failed\n"

/-- An expiration pass over each container in turn, stopping at the first failure. -/
def expireAll : List String → Action (List (String × Expiry))
  | [] => pure []
  | name :: rest => do
    let e ← Action.expireNow name
    pure ((name, e) :: (← expireAll rest))

/-- `expire`: an expiration pass over every container, unless archiving is off. -/
def expire (s : Resolved) (format : Format) : Action Outcome := do
  if !s.archiveEnabled then
    return printed (match format with
      | .json => printJson (.arr [])
      | .text => "Archiving is disabled; nothing to expire.\n")
  orFail (expireAll (s.containers.map (·.1))) fun rs => pure <| printed <|
    match format with
    | .json => printJson (.arr (rs.map fun (name, e) =>
        .obj [("container", .str name), ("deleted_expired", .nat e.deletedExpired),
          ("deleted_for_space", .nat e.deletedForSpace), ("freed_bytes", .nat e.freedBytes),
          ("requeued", .nat e.requeued), ("oldest_archive_ms", .nat e.oldest),
          ("skipped", .bool e.skipped)]))
    | .text => String.join (rs.map fun (name, e) =>
        tick ++ " " ++ name ++ ": " ++ toString e.deletedExpired ++ " expired, " ++
          toString e.deletedForSpace ++ " deleted for space, " ++ humanBytes e.freedBytes ++
          " freed\n")

/-- `purge`: deletes everything, once confirmed. -/
def purge (s : Resolved) (confirmed : Bool) : Action Outcome := do
  if !confirmed then return failed "purge deletes all content; pass --yes to confirm"
  orFail Action.purge fun _ =>
    pure (printed (tick ++ " Purged " ++ toString s.containers.length ++ " container(s)\n"))

/-- Runs a command on an open repository. -/
def run (s : Resolved) (format : Format) : Command → Action Outcome
  | .init => pure (init s format)
  | .stats => stats s format
  | .importFile file lossTolerant => importFile file lossTolerant format
  | .exportClaim container sectionName id offset length dest append =>
    exportClaim ⟨container, sectionName, id, offset, length⟩ dest append
  | .cleanup => cleanup format
  | .expire => expire s format
  | .purge confirmed => purge s confirmed

end Perform

/-- The status a run ends with: 0 when it succeeded, 1 when it failed. -/
def Outcome.exitCode (o : Outcome) : UInt32 := if o.error.isSome then 1 else 0

/-- The files the operator names on a command line: the settings file, and the file an import
reads or an export writes. -/
def Invocation.namedFiles (inv : Invocation) : List String :=
  inv.config :: match inv.command with
    | .importFile file _ => [file]
    | .exportClaim _ _ _ _ _ dest _ => [dest]
    | _ => []

/-- A fresh disk that holds the given files, each with the directories above it; a file whose
path names no place for a file is left out. -/
def machineWith (now : Nat) : List (String × ByteArray) → Disk
  | [] => Disk.fresh
  | (path, bytes) :: rest =>
    let d := machineWith now rest
    (d.putFile path bytes now).toOption.getD d

/-- The probe of the disk the operator's repository lives on. -/
def diskProbe : Probe := Probe.Script.probe {}

/-- Runs an invocation on a host: opens the repository, runs the command and shuts the
repository down. -/
def runInvocation (inv : Invocation) (h : Host) : Outcome × Host :=
  match loadSettings h.disk inv.config with
  | .error e => (failed ("loading " ++ inv.config ++ ": " ++ e), h)
  | .ok settings =>
    match settings.resolve with
    | .error i => (failed ("opening content repository: configuration error: " ++ i.message), h)
    | .ok s =>
      match Repo.launch s (Tracker.empty) diskProbe false h with
      | (.error e, h) => (failed ("opening content repository: " ++ chain e), h)
      | (.ok r, h) =>
        let work : Action Outcome := do
          let outcome ← Perform.run s inv.format inv.command
          Action.shutdown
          pure outcome
        match (work.run).run ⟨r, h⟩ with
        | (.ok outcome, st) => (outcome, st.host)
        | (.error e, st) => (failed (chain e), st.host)

end ClaimStore.Cli
