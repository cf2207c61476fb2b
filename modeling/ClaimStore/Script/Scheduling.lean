import ClaimStore.Scheduler
import ClaimStore.Script.Request
import ClaimStore.Script.Clock
/-!
# Scheduler sessions

A session drives one scheduler whose jobs count their runs.
-/

namespace ClaimStore.Script

open ClaimStore.Text

/-- Answers one step of a scheduler session. -/
def schedulerStep (s : Scheduler) (j : Json) : Read (Json × Scheduler) := do
  match ← text j "op" with
  | "schedule" =>
    let s := s.schedule (← text j "name") (← countOr j "period_ms" 5)
    pure (obj [("tasks", .nat s.tasks.length)], s)
  | "wait_runs" =>
    let (reached, s) := s.waitRuns (← text j "name") (← count j "min") (← countOr j "timeout_ms" 800)
    pure (obj [("reached", .bool reached)], s)
  | "stopped" =>
    let name ← text j "name"
    let before := s.runsOf name
    let s := s.advance (← count j "ms")
    pure (obj [("stopped", .bool (s.runsOf name == before))], s)
  | "ran" => pure (obj [("ran", .bool (s.runsOf (← text j "name") > 0))], s)
  | "task_names" => pure (obj [("names", .arr (s.names.map .str))], s)
  | "shutdown" => pure (done, s.shutdown)
  | "debug" => pure (obj [("debug", .str s.describe)], s)
  | other => throw ("unknown step " ++ other)

/-- A scheduler session as an answer. -/
def schedulerAnswer (j : Json) : Read Json := do
  let steps ← list j "steps"
  pure (results (runSteps schedulerStep (Scheduler.create startMillis) steps))

end ClaimStore.Script
