import ClaimStore.Text.Blank
import ClaimStore.Config.Quantity
import ClaimStore.Config.Toml
/-!
# Repository settings

The settings of a repository as written (the containers by name with their root directories,
and every other setting as a number, a flag or a text), and the settings resolved from them:
percentages as fractions, durations in nanoseconds, sizes in bytes.

Resolution checks, in this order: at least one container; each container (by name, in code
point order) has a name with a non-blank character and a non-empty path; the section count, the
pool size and the reclaim queue capacity are at least one; then it reads the archive
percentage (which must exceed 0% when archiving is on), the back-pressure percentage (by
default two points above the archive percentage), the retention period, the cleanup frequency
(raised to one second), the largest appendable claim size (lowered to 100 MiB) and the
destruction interval (which must be non-zero), and last the reclaim offer timeout. The first
failing check decides the issue.
-/

namespace ClaimStore.Config

/-- Settings as written; absent ones take their defaults. -/
structure Settings where
  containers : List (String × String) := []
  sections : Nat := 1024
  archiveEnabled : Bool := true
  archivePercentage : String := "50%"
  backpressurePercentage : Option String := none
  retention : String := "12 hours"
  cleanupFrequency : String := "1 sec"
  maxAppendable : String := "1 MB"
  maxPooled : Nat := 100
  alwaysSync : Bool := false
  destructionInterval : String := "1 sec"
  reclaimQueue : Nat := 10000
  reclaimOfferTimeout : String := "10 mins"
  deriving Repr, Inhabited

/-- Settings with one container and every default. -/
def Settings.single (name root : String) : Settings := { containers := [(name, root)] }

/-- Settings resolved to numbers. -/
structure Resolved where
  containers : List (String × String)
  sections : Nat
  archiveEnabled : Bool
  maxArchiveRatio : Float
  backpressureRatio : Float
  retentionNanos : Nat
  cleanupNanos : Nat
  maxAppendable : Nat
  maxPooled : Nat
  alwaysSync : Bool
  destructionNanos : Nat
  reclaimQueue : Nat
  reclaimOfferNanos : Nat
  deriving Repr, Inhabited

/-- The largest appendable claim size accepted: 100 MiB. -/
def appendableCeiling : Nat := 100 * 1024 * 1024

/-- The shortest cleanup frequency: one second. -/
def cleanupFloor : Nat := 1000000000

/-- Containers ordered by name, code point by code point, a later entry replacing an earlier
one of the same name. -/
def orderContainers (cs : List (String × String)) : List (String × String) :=
  let unique := cs.foldl (fun acc c => (acc.filter (·.1 != c.1)) ++ [c]) []
  unique.mergeSort (fun a b => decide (a.1 ≤ b.1))

/-- Checks the containers in order. -/
def checkContainers : List (String × String) → Except Issue Unit
  | [] => .ok ()
  | (name, root) :: rest =>
    if (Text.trim name).isEmpty then .error .blankContainerName
    else if root.isEmpty then .error (.emptyContainerPath name)
    else checkContainers rest

/-- Resolves settings, or names the first issue. -/
def Settings.resolve (s : Settings) : Except Issue Resolved := do
  let containers := orderContainers s.containers
  if containers.isEmpty then throw .noContainers
  checkContainers containers
  if s.sections = 0 then throw .zeroSections
  if s.maxPooled = 0 then throw .zeroPooledClaims
  if s.reclaimQueue = 0 then throw .zeroReclaimQueue
  let maxRatio ← parsePercentage s.archivePercentage
  if s.archiveEnabled && maxRatio ≤ 0.0 then throw .zeroArchivePercentage
  let bpRatio ← match s.backpressurePercentage with
    | some t => parsePercentage t
    | none => pure (maxRatio + 0.02)
  let retention ← parseDuration s.retention
  let cleanup ← parseDuration s.cleanupFrequency
  let appendable ← parseDataSize s.maxAppendable
  let destruction ← parseDuration s.destructionInterval
  if destruction = 0 then throw .zeroDestructionInterval
  let offer ← parseDuration s.reclaimOfferTimeout
  pure {
    containers := containers
    sections := s.sections
    archiveEnabled := s.archiveEnabled
    maxArchiveRatio := maxRatio
    backpressureRatio := bpRatio
    retentionNanos := retention
    cleanupNanos := max cleanup cleanupFloor
    maxAppendable := min appendable appendableCeiling
    maxPooled := s.maxPooled
    alwaysSync := s.alwaysSync
    destructionNanos := destruction
    reclaimQueue := s.reclaimQueue
    reclaimOfferNanos := offer }

/-! ## From a TOML document -/

open Toml in
/-- A setting that must be a text. -/
def textOf : Value → Option String
  | .string s => some s
  | _ => none

open Toml in
/-- A setting that must be a flag. -/
def flagOf : Value → Option Bool
  | .boolean b => some b
  | _ => none

open Toml in
/-- A setting that must be a count: a non-negative integer. -/
def countOf : Value → Option Nat
  | .integer n => if 0 ≤ n then some n.toNat else none
  | _ => none

open Toml in
/-- The containers table: every entry a text. -/
def containersOf : Value → Option (List (String × String))
  | .table entries => entries.mapM fun (k, v) => (textOf v).map (k, ·)
  | _ => none

/-- Applies one entry of the document to the settings; unknown keys are ignored, a known key of
the wrong type is refused. -/
def Settings.set (s : Settings) : String × Toml.Value → Option Settings
  | ("containers", v) => (containersOf v).map fun c => { s with containers := c }
  | ("sections_per_container", v) => (countOf v).map fun n => { s with sections := n }
  | ("archive_enabled", v) => (flagOf v).map fun b => { s with archiveEnabled := b }
  | ("archive_max_usage_percentage", v) => (textOf v).map fun t => { s with archivePercentage := t }
  | ("archive_backpressure_percentage", v) =>
    (textOf v).map fun t => { s with backpressurePercentage := some t }
  | ("archive_max_retention_period", v) => (textOf v).map fun t => { s with retention := t }
  | ("archive_cleanup_frequency", v) => (textOf v).map fun t => { s with cleanupFrequency := t }
  | ("max_appendable_claim_size", v) => (textOf v).map fun t => { s with maxAppendable := t }
  | ("max_pooled_claims", v) => (countOf v).map fun n => { s with maxPooled := n }
  | ("always_sync", v) => (flagOf v).map fun b => { s with alwaysSync := b }
  | ("destruction_interval", v) => (textOf v).map fun t => { s with destructionInterval := t }
  | ("reclaim_queue_capacity", v) => (countOf v).map fun n => { s with reclaimQueue := n }
  | ("reclaim_offer_timeout", v) => (textOf v).map fun t => { s with reclaimOfferTimeout := t }
  | _ => some s

/-- Settings from the text of a TOML file, or `none` when the text is no TOML or a setting has
the wrong type. -/
def Settings.ofToml (text : String) : Option Settings :=
  (Toml.parse text).bind fun root => root.foldlM Settings.set {}

end ClaimStore.Config
