import ClaimStore.Gate
import ClaimStore.Archive
import ClaimStore.Fifo
import ClaimStore.Disk.Basic
import ClaimStore.Claim.Id
import ClaimStore.Claim.Basic
/-!
# Containers

A container is a directory of numbered sections. A resource claim's file is
`<root>/<section>/<id>`, and once archived `<root>/<section>/archive/<id>`. Beside its layout a
container keeps its back-pressure gate, a bin of claims waiting to be destroyed, the queue of
archived files known to be oldest, the usable space below which archived files are deleted,
and the age of its oldest archived file.

The operations on files here are the container's own: making the layout, counting archived
files, archiving a file and telling a file's age.
-/

namespace ClaimStore

open ClaimStore.Claim ClaimStore.FileSystem

/-- How many archived files the queue of oldest ones holds. -/
def archiveQueueCapacity : Nat := 100000

/-- A container and its bookkeeping. -/
structure Container where
  name : String
  /-- The root directory's path. -/
  root : String
  /-- At least one. -/
  sections : Nat
  gate : Gate
  /-- Claims waiting to be archived or removed. -/
  reclaimable : Fifo Resource
  /-- Archived files, oldest first. -/
  archived : Fifo Archive.Entry
  /-- Usable space below which archived files are deleted; none when archiving is off. -/
  minUsable : Option Nat
  /-- The last modification time of the oldest archived file, in milliseconds. -/
  oldest : Nat

namespace Container

/-- A container with empty queues; zero sections are taken as one. -/
def create (name root : String) (sections : Nat) (gate : Gate) (reclaimCapacity : Nat)
    (minUsable : Option Nat) : Container :=
  { name, root, sections := max sections 1, gate, reclaimable := Fifo.empty reclaimCapacity,
    archived := Fifo.empty archiveQueueCapacity, minUsable, oldest := 0 }

/-- The container as a purge leaves it: no claims waiting, no archived files queued or counted. -/
def emptied (c : Container) : Container :=
  { c with reclaimable := c.reclaimable.clear, archived := c.archived.clear,
           gate := c.gate.setArchived 0, oldest := 0 }

/-- The section that the claim numbered `index` goes to. -/
def sectionName (c : Container) (index : Nat) : String := toString (index % c.sections)

/-- The directory of a section. -/
def sectionPath (c : Container) (s : String) : String := Path.join c.root s

/-- The archive directory of a section. -/
def archiveDir (c : Container) (s : String) : String := Path.join (c.sectionPath s) Archive.dirName

/-- Where a claim's file is written. -/
def claimPath (c : Container) (r : Resource) : String := Path.join (c.sectionPath r.sectionName) r.id

/-- Where a claim's file lies once archived. -/
def archivePath (c : Container) (r : Resource) : String := Path.join (c.archiveDir r.sectionName) r.id

/-- The names of the sections. -/
def sectionNames (c : Container) : List String := (List.range c.sections).map toString

end Container

namespace Container

/-- Makes the root and every section directory. -/
def ensureLayout (c : Container) (d : Disk) : IoResult Disk := do
  let d ← d.makeDirsAt c.root
  c.sectionNames.foldlM (fun d s =>
    let p := c.sectionPath s
    if d.isDirAt p then pure d else do d.makeDir (← Disk.placeOf p)) d

/-- The regular files directly in a section's archive directory. -/
def archivedFiles (c : Container) (d : Disk) (s : String) : List (String × Nat) :=
  let dir := c.archiveDir s
  match place? dir with
  | some p =>
    if d.isDir p then
      (d.children p).filterMap fun (n, node) => match node with
        | .file i => some (Path.join dir n, i)
        | .dir => none
    else []
  | none => []

/-- How many archived files the sections hold. -/
def countArchived (c : Container) (d : Disk) : Nat :=
  (c.sectionNames.map fun s => (c.archivedFiles d s).length).sum

end Container

/-- A file's age: the time in its name when it is a claim id, else when it last changed, else
zero. -/
def lastModTime (d : Disk) (path : String) : Nat :=
  match (Path.fileName? path).bind creationMillis? with
  | some ms => ms
  | none =>
    match d.nodeAt? path with
    | some (.file i) => d.modified i
    | _ => 0

/-- Moves a file into the archive directory beside it, making that directory when it is
missing. Answers whether the file moved: an archived path, a path without a name and a file
already gone stay where they are. -/
def archiveFile (d : Disk) (path : String) : IoResult (Bool × Disk) :=
  if Archive.isArchived path then pure (false, d)
  else match Archive.pathFor? path with
    | none => pure (false, d)
    | some target =>
      match d.renameAt path target with
      | .ok d' => pure (true, d')
      | .error .notFound =>
        if !d.existsAt path then pure (false, d)
        else do
          let d ← match Path.parent? target with
            | some dir => d.makeDirsAt dir
            | none => pure d
          let d ← d.renameAt path target
          pure (true, d)
      | .error e => throw e

end ClaimStore
