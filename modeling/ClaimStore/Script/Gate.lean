import ClaimStore.Gate
import ClaimStore.Script.Request
/-!
# Gate sessions

A session drives one container's back-pressure gate under a probe that the steps may change.
The gate's directory holds nothing, and the clock stands still.
-/

namespace ClaimStore.Script

open ClaimStore.Text ClaimStore.FileSystem

/-- A probe's usable space: a count, or `"dir"` for what the stored files leave. -/
def asUsable (k : String) : Json → Read Usable
  | .str "dir" => pure .beside
  | j => Usable.fixed <$> asCount k j

/-- A probe with the fields given in `j` changed. -/
def readProbe (j : Json) (p : Probe.Script := {}) : Read Probe.Script := do
  pure { capacity := (← optional j "capacity" asCount).getD p.capacity,
         usable := (← optional j "usable" asUsable).getD p.usable,
         failCapacity := (← optional j "fail_capacity" asFlag).getD p.failCapacity,
         failUsable := (← optional j "fail_usable" asFlag).getD p.failUsable }

/-- The probe described by the field `k`, if given. -/
def readProbeField (j : Json) (k : String) : Read Probe.Script :=
  match opt j k with
  | some p => readProbe p
  | none => pure {}

/-- A gate and the probe it reads. -/
structure GateSession where
  gate : Gate
  probe : Probe.Script

/-- The archived count as an answer. -/
def archivedAnswer (g : Gate) : Json := obj [("archived_count", .nat g.archived)]

/-- Answers one step of a gate session. -/
def gateStep (s : GateSession) (j : Json) : Read (Json × GateSession) := do
  let g := s.gate
  let reading := s.probe.usableReading 0
  match ← text j "op" with
  | "is_wait" =>
    let (w, g) := g.mustWait reading 0
    pure (obj [("wait", .bool w)], { s with gate := g })
  | "set_probe" => pure (done, { s with probe := ← readProbe j s.probe })
  | "inc" => let g := g.incArchived; pure (archivedAnswer g, { s with gate := g })
  | "dec" => let g := g.decArchived; pure (archivedAnswer g, { s with gate := g })
  | "set_count" =>
    let g := g.setArchived (← count j "value")
    pure (archivedAnswer g, { s with gate := g })
  | "count" => pure (archivedAnswer g, s)
  | "signal" => pure (done, { s with gate := g.signalReady reading 0 })
  | "release_all" => pure (done, { s with gate := g.releaseAll })
  | "wait" =>
    let (w, g) := g.mustWait reading 0
    pure (if w then badInput "wait would block" else done, { s with gate := g })
  | "backpressure_bytes" => pure (obj [("backpressure_bytes", .nat g.threshold)], s)
  | "capacity" => pure (obj [("capacity", .nat g.capacity)], s)
  | "debug" => pure (obj [("debug", .str g.describe)], s)
  | other => throw ("unknown step " ++ other)

/-- A gate session as an answer. -/
def gateAnswer (j : Json) : Read Json := do
  let capacity ← count j "capacity"
  let ratio := (← optional j "ratio" asNumber).getD 0.52
  let archiveEnabled ← flagOr j "archive_enabled" true
  let probe ← readProbeField j "probe"
  let steps ← list j "steps"
  let g := Gate.create "default" archiveEnabled capacity ratio
  pure (results (runSteps gateStep ⟨g, probe⟩ steps))

end ClaimStore.Script
