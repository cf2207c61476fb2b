import ClaimStore.Repo.Read
import ClaimStore.Expiry
/-!
# Reclaiming claims

A resource claim is destroyed by archiving its file (when archiving is on) or removing it, and
only after the tracker has let its destruction begin: a frozen claim without claimants. A
failed file operation puts the claim back as it was. Destruction takes the claims the tracker
has queued, then those in the containers' bins; the background work moves queued claims into
the bins first.

Cleanup reconciles the disk with the tracker: every file `<root>/<dir>/<name>` (`name` not
`archive`) whose claim is not in use is archived or removed. Purge empties every container and
forgets every claim. An expiration pass deletes old archived files.
-/

namespace ClaimStore

open ClaimStore.Claim ClaimStore.Config ClaimStore.FileSystem

/-- What a round of destruction did. -/
structure Destruction where
  archived : Nat := 0
  removed : Nat := 0
  skipped : Nat := 0
  failed : Nat := 0
  deriving DecidableEq, Repr

/-- Claims handled in all. -/
def Destruction.total (r : Destruction) : Nat := r.archived + r.removed + r.skipped + r.failed

/-- What a cleanup did. -/
structure Cleanup where
  scanned : Nat := 0
  archived : Nat := 0
  removed : Nat := 0
  failed : Nat := 0
  deriving DecidableEq, Repr

/-- The claims whose files lie in a container's section directories: every regular file
`<root>/<dir>/<name>` whose name is not `archive`, directories and files in name order. -/
def Container.liveClaims (c : Container) (d : Disk) : List Resource :=
  match place? c.root with
  | none => []
  | some root =>
    (d.children root).flatMap fun (dir, n) =>
      match n with
      | .file _ => []
      | .dir =>
        (d.children (root ++ [dir])).filterMap fun (name, m) =>
          match m with
          | .file _ => if name == Archive.dirName then none else some ⟨c.name, dir, name, false⟩
          | .dir => none

namespace Action

/-- Removes a claim's file once the tracker lets its destruction begin; answers whether a file
was removed. -/
def removeResource (c : Resource) : Action Bool := do
  let box ← container c.container
  if !(← tracking (·.beginDestruction c .removed)) then return false
  retireStream c none
  match (← host).disk.removeFileAt (box.claimPath c) with
  | .ok d =>
    modifyHost fun h => { h with disk := d }
    track (·.finishDestruction c)
    pure true
  | .error .notFound =>
    track (·.finishDestruction c)
    pure false
  | .error e =>
    track (·.abortDestruction c)
    throw (.io e)

/-- Archives a claim's file once the tracker lets its destruction begin; answers whether the
file moved. Nothing happens while archiving is off. -/
def archive (c : Resource) : Action Bool := do
  if !(← repo).settings.archiveEnabled then return false
  let box ← container c.container
  if !(← tracking (·.beginDestruction c .archived)) then return false
  retireStream c none
  match archiveFile (← host).disk (box.claimPath c) with
  | .ok (moved, d) =>
    modifyHost fun h => { h with disk := d }
    track (·.finishDestruction c)
    if moved then
      let box ← container c.container
      setContainer { box with gate := box.gate.incArchived }
    pure moved
  | .error e =>
    track (·.abortDestruction c)
    throw (.io e)

/-- Archives or removes a claim, counting the outcome. -/
def destroy (report : Destruction) (c : Resource) : Action Destruction := do
  let archiving := (← repo).settings.archiveEnabled
  match ← attempt (if archiving then archive c else removeResource c) with
  | .ok true =>
    pure (if archiving then { report with archived := report.archived + 1 }
      else { report with removed := report.removed + 1 })
  | .ok false => pure { report with skipped := report.skipped + 1 }
  | .error _ => pure { report with failed := report.failed + 1 }

/-- Destroys the claims in a container's bin. -/
def archiveOrDestroy (report : Destruction) (name : String) : Action Destruction := do
  let box ← container name
  let (batch, q) := box.reclaimable.drain box.reclaimable.size
  setContainer { box with reclaimable := q }
  batch.foldlM destroy report

/-- Destroys every claim the tracker has queued, then every claim in the bins. -/
def runDestruction : Action Destruction := do
  let r ← repo
  let (batch, t) := r.tracker.drainDestructable r.tracker.pending
  modifyRepo fun r => { r with tracker := t }
  let report ← batch.foldlM destroy {}
  (← repo).containers.map (·.name) |>.foldlM archiveOrDestroy report

/-- Moves the claims the tracker has queued into their containers' bins. A full bin is first
emptied by destroying its claims, as the work on the bins would do meanwhile. Claims of unknown
containers are dropped; after shutdown nothing moves. -/
def binDestructable : Action Unit := do
  let r ← repo
  let (batch, t) := r.tracker.drainDestructable r.tracker.pending
  modifyRepo fun r => { r with tracker := t }
  for c in batch do
    if (← repo).shutDown then return
    match (← repo).container? c.container with
    | none => pure ()
    | some box =>
      let box ← if box.reclaimable.isFull then do
          let _ ← archiveOrDestroy {} box.name
          container box.name
        else pure box
      match box.reclaimable.offer c with
      | some q => setContainer { box with reclaimable := q }
      | none => pure ()

/-- Archives or removes every file in the containers whose claim is not in use. -/
def cleanup : Action Cleanup := do
  let archiving := (← repo).settings.archiveEnabled
  let mut report : Cleanup := {}
  for name in (← repo).containers.map (·.name) do
    let box ← container name
    for c in box.liveClaims (← host).disk do
      report := { report with scanned := report.scanned + 1 }
      if (← repo).tracker.inUse c then continue
      match ← attempt (if archiving then archive c else removeResource c) with
      | .ok true =>
        report := if archiving then { report with archived := report.archived + 1 }
          else { report with removed := report.removed + 1 }
      | .ok false => pure ()
      | .error _ => report := { report with failed := report.failed + 1 }
  pure report

/-- The claims whose files lie in a container's sections, in order; none for an unknown
container. -/
def activeClaims (name : String) : Action (List Resource) := do
  match (← repo).container? name with
  | none => pure []
  | some box => pure ((box.liveClaims (← host).disk).mergeSort fun a b => a.compareKey b != .gt)

/-- Empties a directory, failing as a purge. -/
def clearDirectory (root : String) : Action Unit := do
  let d := (← host).disk
  let p ← match Disk.placeOf root with
    | .ok p => pure p
    | .error _ => return
  match d.readDir p with
  | .error .notFound => pure ()
  | .error e => throw (.purge ("cannot list " ++ root ++ ": " ++ e.message))
  | .ok entries =>
    for (name, n) in entries do
      let path := Path.join root name
      let d := (← host).disk
      let removed := match n with
        | .dir => d.removeTree (p ++ [name])
        | .file _ => d.removeFile (p ++ [name])
      match removed with
      | .ok d => modifyHost fun h => { h with disk := d }
      | .error e => throw (.purge ("cannot delete " ++ path ++ ": " ++ e.message))

/-- Empties a container and its root directory. -/
def emptyContainer (name : String) : Action Unit := do
  let box ← container name
  setContainer box.emptied
  clearDirectory box.root

/-- Empties every container and its root. -/
def emptyContainers : Action Unit := do
  for name in (← repo).containers.map (·.name) do
    emptyContainer name

/-- Makes a container's root and section directories again; a root that cannot be made a
directory fails the purge. -/
def restoreLayout (name : String) : Action Unit := do
  let box ← container name
  let d := (← host).disk
  let writable : IoResult Disk := do
    let d ← d.makeDirsAt box.root
    if d.isDirAt box.root then pure d else throw .notADirectory
  match writable with
  | .error e =>
    throw (.purge ("container " ++ box.name ++ " at " ++ box.root ++
      " is missing or not writable: " ++ e.message))
  | .ok d =>
    match box.ensureLayout d with
    | .ok d => modifyHost fun h => { h with disk := d }
    | .error e =>
      throw (.purge ("cannot recreate sections of container " ++ box.name ++ ": " ++ e.message))

/-- Makes every container's root and section directories again. -/
def restoreLayouts : Action Unit := do
  for name in (← repo).containers.map (·.name) do
    restoreLayout name

/-- Empties every container, restores its sections and forgets every claim. -/
def purge : Action Unit := do
  closeAllStreams
  emptyContainers
  restoreLayouts
  track (·.purge)

/-- One expiration pass over a container, by `pass`, with the configured retention; the gate
takes a fresh reading afterwards. -/
def expireWith (name : String)
    (pass : Container → Disk → Probe → Nat → Nat → IoResult Expiry × Container × Disk) :
    Action Expiry := do
  let box ← container name
  let r ← repo
  let h ← host
  let (outcome, box, d) := pass box h.disk r.probe h.now (r.settings.retentionNanos / 1000000)
  modifyHost fun h => { h with disk := d }
  setContainer box
  ofIo outcome

/-- An expiration pass now: the gate takes a fresh reading afterwards. -/
def expireNow (name : String) : Action Expiry := do
  let outcome ← attempt (expireWith name Container.expire)
  match (← repo).container? name with
  | some box =>
    let r ← repo
    let h ← host
    setContainer { box with gate := box.gate.signalReady (r.usable h.disk box) h.now }
  | none => pure ()
  match outcome with
  | .ok e => pure e
  | .error e => throw e

/-- The capacity of a container's volume. -/
def capacityOf (name : String) : Action Nat := do
  let box ← container name
  ofIo ((← repo).capacity (← host).disk box)

/-- The usable space of a container's volume. -/
def usableOf (name : String) : Action Nat := do
  let box ← container name
  ofIo ((← repo).usable (← host).disk box)

/-- The archived-file count of a container. -/
def archivedCount (name : String) : Action Nat := do pure (← container name).gate.archived

end Action

end ClaimStore
