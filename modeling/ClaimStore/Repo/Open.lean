import ClaimStore.Repo.Basic
/-!
# Opening a repository

Opening sets up every container in name order: it makes the root directory, asks the probe
for the volume's capacity (zero is refused), lays out the sections and counts the archived
files already there. Archiving keeps a minimum of usable space: the capacity less the archive's
share of it, with two points of headroom. A failure stops the opening; the directories made
so far stay.

With background work, the repository schedules a job moving released claims into the bins and,
for each container, a job destroying the claims in its bin, both every destruction interval,
and (with archiving on) a job expiring its archived files every cleanup period.
-/

namespace ClaimStore

open ClaimStore.Claim ClaimStore.Config ClaimStore.FileSystem

/-- Headroom between the archive's share of a volume and the space kept usable. -/
def archiveHeadroom : Float := 0.02

/-- The usable space to keep when archived data may use `maxRatio` of `capacity`. -/
def minUsableFor (capacity : Nat) (maxRatio : Float) : Nat :=
  (Float.ofNat capacity * (1.0 - (maxRatio - archiveHeadroom))).toUInt64.toNat

/-- Lays out one section: a directory already there is kept, a missing one is made; after a
failure nothing more is done. -/
def Container.layOutStep (c : Container) : IoResult Disk × Disk → String → IoResult Disk × Disk
  | (.error e, d), _ => (.error e, d)
  | (.ok _, d), sec =>
    let p := c.sectionPath sec
    if d.isDirAt p then (.ok d, d)
    else match (do d.makeDir (← Disk.placeOf p)) with
      | .ok d' => (.ok d', d')
      | .error e => (.error e, d)

/-- Lays out the sections of a container, with the disk as it is after a failure too. -/
def Container.layOut (c : Container) (d : Disk) : IoResult Disk × Disk :=
  c.sectionNames.foldl c.layOutStep (.ok d, d)

/-- Sets up one container on a disk; answers the disk as it is afterwards, failure or not. -/
def Container.setUp (s : Resolved) (probe : Probe) (d : Disk) (name root : String) :
    Except StoreError Container × Disk :=
  match d.makeDirsAt root with
  | .error e => (.error (.io e), d)
  | .ok d =>
    match probe.capacity root d with
    | .error e => (.error (.io e), d)
    | .ok 0 => (.error (.config (.zeroCapacity name root)), d)
    | .ok capacity =>
      let gate := Gate.create name s.archiveEnabled capacity s.backpressureRatio
      let minUsable :=
        if s.archiveEnabled then some (minUsableFor capacity s.maxArchiveRatio) else none
      let c := Container.create name root s.sections gate s.reclaimQueue minUsable
      match c.layOut d with
      | (.error e, d) => (.error (.io e), d)
      | (.ok _, d) => (.ok { c with gate := c.gate.setArchived (c.countArchived d) }, d)

/-- Sets up containers in order, stopping at the first failure. -/
def setUpAll (s : Resolved) (probe : Probe) :
    List (String × String) → Disk → Except StoreError (List Container) × Disk
  | [], d => (.ok [], d)
  | (name, root) :: rest, d =>
    match Container.setUp s probe d name root with
    | (.error e, d) => (.error e, d)
    | (.ok c, d) =>
      match setUpAll s probe rest d with
      | (.ok cs, d) => (.ok (c :: cs), d)
      | (.error e, d) => (.error e, d)

/-- Whole milliseconds of a duration in nanoseconds, rounded up. -/
def millisOf (nanos : Nat) : Nat := (nanos + 999999) / 1000000

/-- The background jobs of a repository with these settings and containers, named, with their
periods in milliseconds, in the order they are scheduled. -/
def backgroundJobs (s : Resolved) (names : List String) : List (String × Nat × Chore) :=
  ("bin-destructable-claims", millisOf s.destructionNanos, .bin) ::
    names.flatMap fun n =>
      ("archive-or-destroy-" ++ n, millisOf s.destructionNanos, .reclaim n) ::
        (if s.archiveEnabled then [("expire-archive-" ++ n, millisOf s.cleanupNanos, .expire n)]
          else [])

/-- Opens a repository with a tracker and a probe on a host, with or without background work. -/
def Repo.launch (s : Resolved) (tracker : Tracker) (probe : Probe) (background : Bool) (h : Host) :
    Except StoreError Repo × Host :=
  match setUpAll s probe s.containers h.disk with
  | (.error e, d) => (.error e, { h with disk := d })
  | (.ok cs, d) =>
    let jobs := if background then backgroundJobs s (cs.map (·.name)) else []
    let scheduler := jobs.foldl (fun k (name, period, _) => k.schedule name period)
      (Scheduler.create h.now)
    let r : Repo :=
      { settings := s, containers := cs, tracker := tracker, probe := probe, ids := ⟨0⟩,
        pool := Fifo.empty s.maxPooled, streams := [], shutDown := false,
        background := if background then some scheduler else none,
        chores := jobs.map fun (name, _, c) => (name, c) }
    (.ok r, { h with disk := d })

end ClaimStore
