import ClaimStore.Disk.Probe
import ClaimStore.Text.Quoted
/-!
# Back-pressure

A container's gate decides whether creating content has to wait. It waits while archiving is on,
archived files exist, and the used space has reached the threshold, a fraction of the capacity.
Used space is the capacity less the usable space of the last good probe reading. A reading is
kept for a minute; a new one is taken when the kept one is older, when the kept usage is zero,
and whenever creation is signalled as ready. A failed reading keeps the previous one.
-/

namespace ClaimStore

open ClaimStore.FileSystem

/-- How long a usage reading stays fresh, in milliseconds. -/
def usageWindow : Nat := 60000

/-- The back-pressure state of a container. -/
structure Gate where
  container : String
  archiveEnabled : Bool
  capacity : Nat
  /-- Used bytes at which creation waits. -/
  threshold : Nat
  /-- Archived files, a 64-bit counter. -/
  archived : Nat
  /-- Used bytes at the last good reading. -/
  used : Nat
  /-- When the last good reading was taken. -/
  readAt : Option Nat
  /-- Bumped on every release of waiting creators; a 64-bit counter. -/
  generation : Nat
  deriving Repr

namespace Gate

/-- A gate with the threshold `ratio` of `capacity`, rounded down and held within 64 bits. -/
def create (container : String) (archiveEnabled : Bool) (capacity : Nat) (ratio : Float) : Gate :=
  { container, archiveEnabled, capacity,
    threshold := (Float.ofNat capacity * ratio).toUInt64.toNat,
    archived := 0, used := 0, readAt := none, generation := 0 }

/-- Sets the archived-file count. -/
def setArchived (g : Gate) (n : Nat) : Gate := { g with archived := n % 2 ^ 64 }

/-- One more archived file; the counter wraps. -/
def incArchived (g : Gate) : Gate := g.setArchived (g.archived + 1)

/-- One archived file fewer, never below zero. -/
def decArchived (g : Gate) : Gate := { g with archived := g.archived - 1 }

/-- Takes a usable-space reading; a failed one changes nothing. -/
def record (g : Gate) (reading : IoResult Nat) (now : Nat) : Gate :=
  match reading with
  | .ok free => { g with used := g.capacity - free, readAt := some now }
  | .error _ => g

/-- Whether the kept reading has to be renewed at `now`. -/
def stale (g : Gate) (now : Nat) : Bool :=
  g.used == 0 || match g.readAt with
    | some t => usageWindow ≤ now - t
    | none => true

/-- Whether creation has to wait at `now`, renewing the reading when it is stale. -/
def mustWait (g : Gate) (reading : IoResult Nat) (now : Nat) : Bool × Gate :=
  if !g.archiveEnabled then (false, g)
  else
    let g := if g.stale now then g.record reading now else g
    (g.threshold ≤ g.used && g.archived > 0, g)

/-- Wakes every waiting creator; the generation counter wraps. -/
def releaseAll (g : Gate) : Gate := { g with generation := (g.generation + 1) % 2 ^ 64 }

/-- Takes a fresh reading and wakes every waiting creator. -/
def signalReady (g : Gate) (reading : IoResult Nat) (now : Nat) : Gate :=
  (g.record reading now).releaseAll

/-- The gate as shown in sentences. -/
def describe (g : Gate) : String :=
  "ContainerState \x7b container: " ++ Text.quote g.container ++ ", archive_enabled: " ++
    toString g.archiveEnabled ++ ", capacity: " ++ toString g.capacity ++
    ", backpressure_bytes: " ++ toString g.threshold ++ ", archived_count: " ++
    toString g.archived ++ " \x7d"

end Gate

end ClaimStore
