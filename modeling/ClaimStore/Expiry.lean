import ClaimStore.Container
/-!
# Expiring archived files

An expiration pass deletes the archived files of a container that are older than the
retention, and, while usable space is below the container's minimum, the oldest of the others
until the shortfall is freed.

A pass first works through the queue of archived files known to be oldest: it takes files
from the front while space is short or they have expired, and ends as soon as the shortfall
is met and the front has not expired. When the queue runs out it scans every section's
archive directory: expired files are deleted; when space was short the others are sorted by
age and deleted oldest first until the shortfall is met or, looking again every 25 deletions,
the probe reports enough space. What is left of them goes back to the queue.

A pass that fails to read usable space stops with that error, keeping what it deleted.
-/

namespace ClaimStore

open ClaimStore.FileSystem

/-- What an expiration pass did. -/
structure Expiry where
  deletedExpired : Nat := 0
  deletedForSpace : Nat := 0
  freedBytes : Nat := 0
  /-- Files put back into the queue of oldest archived files. -/
  requeued : Nat := 0
  /-- The age of the oldest archived file left, in milliseconds. -/
  oldest : Nat := 0
  /-- The pass did nothing: archiving is off, or nothing was due. -/
  skipped : Bool := false
  deriving DecidableEq, Repr

namespace Expiry

/-- Files deleted in all. -/
def deleted (r : Expiry) : Nat := r.deletedExpired + r.deletedForSpace

/-- Counts a deleted file: expired, or deleted for space. -/
def count (r : Expiry) (expired : Bool) (size : Nat) : Expiry :=
  if expired then { r with deletedExpired := r.deletedExpired + 1, freedBytes := r.freedBytes + size }
  else { r with deletedForSpace := r.deletedForSpace + 1, freedBytes := r.freedBytes + size }

end Expiry

/-- How many deletions for space go between two readings of usable space. -/
def probeEvery : Nat := 25

/-- No age at all: the largest 64-bit value. -/
def noAge : Nat := 2 ^ 64 - 1

/-- A pass in progress: the container and the disk it changes. -/
structure Sweep where
  container : Container
  disk : Disk

namespace Sweep

/-- The usable space of the container's root. -/
def usable (s : Sweep) (probe : Probe) : IoResult Nat :=
  probe.usable s.container.root s.disk

/-- Deletes an archived file; answers whether it was deleted. A file that is gone or cannot be
deleted counts as not deleted. -/
def delete (s : Sweep) (e : Archive.Entry) : Bool × Sweep :=
  match s.disk.removeFileAt e.path with
  | .ok d => (true, ⟨{ s.container with gate := s.container.gate.decArchived }, d⟩)
  | .error _ => (false, s)

/-- Records the age of the oldest file left. -/
def settle (s : Sweep) (r : Expiry) (oldest : Nat) : Expiry × Sweep :=
  ({ r with oldest }, { s with container := { s.container with oldest } })

/-- The first phase, over the queue; `none` when the queue ran out before the pass ended. -/
def fromQueue (threshold toFree now : Nat) : Nat → Expiry → Sweep → Option Expiry × Expiry × Sweep
  | 0, r, s => (none, r, s)
  | fuel + 1, r, s =>
    match s.container.archived.peek with
    | none => (none, r, s)
    | some head =>
      let expired := head.lastModified < threshold
      let (r, s) :=
        if r.freedBytes < toFree || expired then
          let s := { s with container := { s.container with archived := s.container.archived.poll.2 } }
          let (ok, s) := s.delete head
          (if ok then r.count expired head.size else r, s)
        else (r, s)
      if r.freedBytes ≥ toFree then
        match s.container.archived.peek with
        | some next =>
          if next.lastModified < threshold then fromQueue threshold toFree now fuel r s
          else
            let (r, s) := s.settle { r with requeued := s.container.archived.size } next.lastModified
            (some r, r, s)
        | none =>
          let (r, s) := s.settle { r with requeued := s.container.archived.size } now
          (some r, r, s)
      else fromQueue threshold toFree now fuel r s

/-- The archived files found by a scan, section by section, each directory in name order. -/
def scan (s : Sweep) : List Archive.Entry :=
  s.container.sectionNames.flatMap fun sec =>
    (s.container.archivedFiles s.disk sec).map fun (path, i) =>
      Archive.Entry.create s.container.root path (s.disk.bytes i).size (lastModTime s.disk path)

/-- The scan's first part: deletes expired files; answers the others when space was short,
and the age of the oldest kept. -/
def sweepExpired (threshold : Nat) (overBudget : Bool) :
    List Archive.Entry → Expiry × Sweep × List Archive.Entry × Nat →
      Expiry × Sweep × List Archive.Entry × Nat
  | [], acc => acc
  | e :: rest, (r, s, kept, oldest) =>
    if e.lastModified < threshold then
      let (ok, s) := s.delete e
      sweepExpired threshold overBudget rest (if ok then r.count true e.size else r, s, kept, oldest)
    else
      sweepExpired threshold overBudget rest
        (r, s, if overBudget then kept ++ [e] else kept, min oldest e.lastModified)

/-- The scan's second part: deletes the oldest candidates for space. Answers how many were
consumed, or the error of a failed reading. -/
def sweepSpace (probe : Probe) (toFree minUsable : Nat) :
    List (Nat × Archive.Entry) → Expiry × Sweep × Nat → IoResult Unit × Expiry × Sweep × Nat
  | [], (r, s, used) => (.ok (), r, s, used)
  | (i, e) :: rest, (r, s, used) =>
    if r.freedBytes ≥ toFree then (.ok (), r, s, used)
    else
      let (ok, s) := s.delete e
      let r := if ok then r.count false e.size else r
      if i % probeEvery == 0 then
        match s.usable probe with
        | .error err => (.error err, r, s, i + 1)
        | .ok u =>
          if u > minUsable then (.ok (), r, s, i + 1)
          else sweepSpace probe toFree minUsable rest (r, s, i + 1)
      else sweepSpace probe toFree minUsable rest (r, s, i + 1)

end Sweep

namespace Container

/-- One expiration pass at `now` with a retention in milliseconds. -/
def expire (c : Container) (d : Disk) (probe : Probe) (now retention : Nat) :
    IoResult Expiry × Container × Disk :=
  match c.minUsable with
  | none => (.ok { skipped := true }, c, d)
  | some minUsable =>
    let s : Sweep := ⟨c, d⟩
    let threshold := now - retention
    match s.usable probe with
    | .error e => (.error e, c, d)
    | .ok usable =>
      let toFree := minUsable - usable
      match Sweep.fromQueue threshold toFree now (c.archived.size + 1) {} s with
      | (some r, _, s) => (.ok r, s.container, s.disk)
      | (none, r, s) =>
        let overBudget := usable < minUsable
        let (r, s, kept, oldest) := Sweep.sweepExpired threshold overBudget s.scan (r, s, [], noAge)
        let candidates := kept.mergeSort fun a b => a.lastModified ≤ b.lastModified
        let (outcome, r, s, used) :=
          Sweep.sweepSpace probe toFree minUsable (List.zipIdx candidates |>.map fun (e, i) => (i, e))
            (r, s, 0)
        match outcome with
        | .error e => (.error e, s.container, s.disk)
        | .ok () =>
          let remaining := candidates.drop used
          let oldest := if overBudget then (remaining.head?.map (·.lastModified)).getD noAge
            else oldest
          let (queue, requeued) := (remaining.take archiveQueueCapacity).foldl
            (fun (q, n) e => match q.offer e with
              | some q' => (q', n + 1)
              | none => (q, n)) (s.container.archived, 0)
          let s := { s with container := { s.container with archived := queue } }
          let (r, s) := s.settle { r with requeued } (if oldest == noAge then now else oldest)
          (.ok r, s.container, s.disk)

/-- A scheduled pass: skipped while the oldest archived file is younger than the retention
and space suffices. The gate takes a fresh reading afterwards, whatever the outcome. -/
def expireScheduled (c : Container) (d : Disk) (probe : Probe) (now retention : Nat) :
    IoResult Expiry × Container × Disk :=
  let (outcome, c, d) :=
    match c.minUsable with
    | none => (.ok { skipped := true }, c, d)
    | some minUsable =>
      if c.oldest > now - retention then
        match (Sweep.mk c d).usable probe with
        | .error e => (.error e, c, d)
        | .ok u =>
          if u > minUsable then (.ok { oldest := c.oldest, skipped := true }, c, d)
          else c.expire d probe now retention
      else c.expire d probe now retention
  let reading := (Sweep.mk c d).usable probe
  (outcome, { c with gate := c.gate.signalReady reading now }, d)

end Container

end ClaimStore
