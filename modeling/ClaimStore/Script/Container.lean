import ClaimStore.Expiry
import ClaimStore.Script.Files
import ClaimStore.Script.Gate
/-!
# Container sessions

A session drives one container rooted at `c` in the scratch directory, with its own probe.
-/

namespace ClaimStore.Script

open ClaimStore.Text ClaimStore.FileSystem ClaimStore.Claim

/-- An expiration report as an answer. -/
def expiryFields (r : Expiry) : List (String × Json) :=
  [("deleted_expired", .nat r.deletedExpired), ("deleted_for_space", .nat r.deletedForSpace),
    ("freed_bytes", .nat r.freedBytes), ("requeued", .nat r.requeued),
    ("oldest_archive_ms", .nat r.oldest), ("skipped", .bool r.skipped)]

/-- A path under the scratch directory, relative to it. -/
def scratchRelative (path : String) : String :=
  ((Path.stripPrefix? path scratchName).getD path)

/-- A container, the disk and probe it works with, and the clock. -/
structure ContainerSession where
  container : Container
  disk : Disk
  probe : Probe.Script
  now : Nat

namespace ContainerSession

/-- The usable-space reading of the container's root. -/
def reading (s : ContainerSession) : IoResult Nat := (Sweep.mk s.container s.disk).usable s.probe.probe

/-- An expiration pass as an answer. -/
def expireWith (s : ContainerSession)
    (pass : Container → Disk → Probe → Nat → Nat → IoResult Expiry × Container × Disk)
    (retention : Nat) : Json × ContainerSession :=
  let (outcome, c, d) := pass s.container s.disk s.probe.probe s.now retention
  let s := { s with container := c, disk := d }
  match outcome with
  | .ok r => (obj (expiryFields r), s)
  | .error e => (ioAnswer e, s)

/-- Answers one step. -/
def step (s : ContainerSession) (j : Json) : Read (Json × ContainerSession) := do
  let c := s.container
  let op ← text j "op"
  match fileStep s.disk s.now op j with
  | some r => let (a, d) ← r; pure (a, { s with disk := d })
  | none =>
  match op with
  | "expire" => pure (s.expireWith Container.expire (← count j "retention_ms"))
  | "expire_task" => pure (s.expireWith Container.expireScheduled (← count j "retention_ms"))
  | "ensure_layout" =>
    pure (match c.ensureLayout s.disk with
      | .ok d => (done, { s with disk := d })
      | .error e => (ioAnswer e, s))
  | "count_archived" => pure (obj [("count", .nat (c.countArchived s.disk))], s)
  | "set_oldest" =>
    pure (done, { s with container := { c with oldest := ← count j "value" } })
  | "oldest" => pure (obj [("oldest_archive_ms", .nat c.oldest)], s)
  | "section_name" => pure (obj [("section", .str (c.sectionName (← count j "index")))], s)
  | "paths" =>
    let r : Resource := ⟨c.name, ← text j "section", ← text j "id", false⟩
    pure (obj [("claim_path", .str (scratchRelative (c.claimPath r))),
      ("archive_path", .str (scratchRelative (c.archivePath r)))], s)
  | "archive_file" =>
    let path ← readScratchPath j "path"
    pure (match archiveFile s.disk path with
      | .ok (moved, d) => (obj [("moved", .bool moved)], { s with disk := d })
      | .error e => (ioAnswer e, s))
  | "last_mod_time" => pure (obj [("ms", .nat (lastModTime s.disk (← readScratchPath j "path")))], s)
  | "set_probe" => pure (done, { s with probe := ← readProbe j s.probe })
  | "archived_count" => pure (obj [("archived_count", .nat c.gate.archived)], s)
  | "set_archived_count" =>
    pure (done, { s with container := { c with gate := c.gate.setArchived (← count j "value") } })
  | "is_wait" =>
    let (w, g) := c.gate.mustWait s.reading s.now
    pure (obj [("wait", .bool w)], { s with container := { c with gate := g } })
  | "signal" =>
    pure (done, { s with container := { c with gate := c.gate.signalReady s.reading s.now } })
  | "min_usable" => pure (obj [("min_usable", .natOrNull c.minUsable)], s)
  | "sections" => pure (obj [("sections", .nat c.sections)], s)
  | other => throw ("unknown step " ++ other)

end ContainerSession

/-- A container session as an answer. -/
def containerAnswer (j : Json) : Read Json := do
  let name ← textOr j "name" "c1"
  let sections ← countOr j "sections" 2
  let capacity ← countOr j "capacity" 1000000
  let ratio := (← optional j "ratio" asNumber).getD 0.52
  let archiveEnabled ← flagOr j "archive_enabled" true
  let minUsable ← optional j "min_usable" asCount
  let reclaimCapacity ← countOr j "reclaim_capacity" 16
  let probe ← readProbeField j "probe"
  let layout ← flagOr j "layout" true
  let steps ← list j "steps"
  let now := startMillis
  match ← writeFiles j Disk.fresh now with
  | .error e => pure (ioAnswer e)
  | .ok d =>
    let root := scratchPath "c"
    let c := Container.create name root sections (Gate.create name archiveEnabled capacity ratio)
      reclaimCapacity minUsable
    let d := if layout then c.ensureLayout d else .ok d
    match d with
    | .error e => pure (ioAnswer e)
    | .ok d => pure (results (runSteps ContainerSession.step ⟨c, d, probe, now⟩ steps))

end ClaimStore.Script
