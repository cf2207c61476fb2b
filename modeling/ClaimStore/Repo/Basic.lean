import ClaimStore.Config.Settings
import ClaimStore.Container
import ClaimStore.Tracker
import ClaimStore.Stream
import ClaimStore.Claim.Id
import ClaimStore.Scheduler
/-!
# Repositories

A repository hands out content claims in its containers, writes and reads their bytes, and
reclaims the files nobody refers to. Its state: the resolved settings, the containers in name
order, the reference tracker, the space probe, the counter that numbers new claims, the pool
of resource claims that may still be appended to (each with its current length), the streams
open for writing by claim, whether it has been shut down, and the scheduler of its background
work with the chore each scheduled job does.

A repository runs on a host; `Store` is the pair, and `Action` an operation on it that may
fail. A failed operation keeps the changes it made before failing, as operations on files do.
-/

namespace ClaimStore

open ClaimStore.Claim ClaimStore.Config ClaimStore.FileSystem

/-- Why a repository operation failed. -/
inductive StoreError where
  /-- A claim's bytes are in neither the live nor the archive location, or are too short. -/
  | contentNotFound (claim : Resource) (reason : String)
  /-- An operation on files failed. -/
  | io (e : IoError)
  /-- The settings are unusable. -/
  | config (issue : Issue)
  /-- A purge could not empty or restore a container. -/
  | purge (message : String)
  /-- A claim was used in a way the repository does not allow. -/
  | invalidClaim (message : String)
  /-- No container has this name. -/
  | unknownContainer (name : String)
  /-- The repository has been shut down. -/
  | shutdown
  /-- An arithmetic bound was broken: the operation stops altogether. -/
  | crash (message : String)
  deriving Repr

namespace StoreError

/-- The name of the error's kind. -/
def kind : StoreError → String
  | .contentNotFound _ _ => "ContentNotFound"
  | .io _ => "Io"
  | .config _ => "Config"
  | .purge _ => "Purge"
  | .invalidClaim _ => "InvalidClaim"
  | .unknownContainer _ => "UnknownContainer"
  | .shutdown => "Shutdown"
  | .crash _ => "panic"

/-- The error as a sentence. -/
def message : StoreError → String
  | .contentNotFound c r => "content not found for " ++ c.display ++ ": " ++ r
  | .io e => "I/O error: " ++ e.message
  | .config i => "configuration error: " ++ i.message
  | .purge m => "repository purge failed: " ++ m
  | .invalidClaim m => "invalid claim: " ++ m
  | .unknownContainer n => "unknown container: " ++ n
  | .shutdown => "content repository is shut down"
  | .crash m => m

/-- Whether the claim's bytes are lost. -/
def isContentNotFound : StoreError → Bool
  | .contentNotFound _ _ => true
  | _ => false

end StoreError

/-- A job of a repository's background work. -/
inductive Chore where
  /-- Moves the claims the tracker has queued into their containers' bins. -/
  | bin
  /-- Destroys the claims in a container's bin. -/
  | reclaim (container : String)
  /-- Deletes a container's expired archived files. -/
  | expire (container : String)
  deriving DecidableEq, Repr

/-- A repository's state. -/
structure Repo where
  settings : Resolved
  containers : List Container
  tracker : Tracker
  probe : Probe
  ids : IdCounter
  /-- Resource claims that may be appended to, with the length of their files. -/
  pool : Fifo (Resource × Nat)
  /-- The stream open for writing each claim, by number on the host. -/
  streams : List (ClaimKey × Nat)
  shutDown : Bool
  /-- The scheduler of the background work, while it runs. -/
  background : Option Scheduler := none
  /-- The chore of each scheduled job, by the job's name. -/
  chores : List (String × Chore) := []

/-- A repository and its host. -/
structure Store where
  repo : Repo
  host : Host

/-- An operation on a store that may fail; the store keeps what happened before a failure. -/
abbrev Action := ExceptT StoreError (StateM Store)

namespace Action

/-- The repository. -/
def repo : Action Repo := do pure (← get).repo

/-- The host. -/
def host : Action Host := do pure (← get).host

/-- Changes the repository. -/
def modifyRepo (f : Repo → Repo) : Action Unit := modify fun s => { s with repo := f s.repo }

/-- Changes the host. -/
def modifyHost (f : Host → Host) : Action Unit := modify fun s => { s with host := f s.host }

/-- Changes the tracker, answering what the change answers. -/
def tracking {α : Type} (f : Tracker → α × Tracker) : Action α := do
  let (a, t) := f (← repo).tracker
  modifyRepo fun r => { r with tracker := t }
  pure a

/-- Changes the tracker. -/
def track (f : Tracker → Tracker) : Action Unit := modifyRepo fun r => { r with tracker := f r.tracker }

/-- An outcome of an operation on files, failing as `io`. -/
def ofIo {α : Type} (r : IoResult α) : Action α :=
  match r with
  | .ok a => pure a
  | .error e => throw (.io e)

/-- Changes the disk by an operation on files. -/
def onDisk (f : Disk → IoResult Disk) : Action Unit := do
  let d ← ofIo (f (← host).disk)
  modifyHost fun h => { h with disk := d }

/-- Runs an action, answering its outcome instead of failing. -/
def attempt {α : Type} (a : Action α) : Action (Except StoreError α) := do
  let s ← get
  let (r, s) := (a.run).run s
  set s
  pure r

end Action

namespace Repo

/-- A container by name. -/
def container? (r : Repo) (name : String) : Option Container := r.containers.find? (·.name == name)

/-- Replaces the container of the same name. -/
def setContainer (r : Repo) (c : Container) : Repo :=
  { r with containers := r.containers.map fun c' => if c'.name == c.name then c else c' }

/-- The stream open for writing a claim. -/
def streamOf? (r : Repo) (c : Resource) : Option Nat := (r.streams.find? (·.1 == c.key)).map (·.2)

/-- The usable space of a container's root, read by the probe. -/
def usable (r : Repo) (d : Disk) (c : Container) : IoResult Nat :=
  r.probe.usable c.root d

/-- The capacity of a container's volume, read by the probe. -/
def capacity (r : Repo) (d : Disk) (c : Container) : IoResult Nat := r.probe.capacity c.root d

/-- The repository as shown in sentences. -/
def describe (r : Repo) : String :=
  "FileSystemRepository \x7b containers: [" ++
    ", ".intercalate (r.containers.map fun c => Text.quote c.name) ++ "], open_streams: " ++
    toString r.streams.length ++ ", pooled: " ++ toString r.pool.size ++ ", shut_down: " ++
    toString r.shutDown ++ " \x7d"

end Repo

namespace Action

/-- A container by name, or `unknownContainer`. -/
def container (name : String) : Action Container := do
  match (← repo).container? name with
  | some c => pure c
  | none => throw (.unknownContainer name)

/-- Replaces a container. -/
def setContainer (c : Container) : Action Unit := modifyRepo fun r => r.setContainer c

end Action

end ClaimStore
