import ClaimStore.Tracker
import ClaimStore.Script.Claims
/-!
# Tracker sessions

A session drives one tracker. Steps that name a claim carry its fields (`container`, `section`,
`id`, `loss_tolerant`); a claim in the destruction queue is shown as `container/section/id`.
-/

namespace ClaimStore.Script

open ClaimStore.Text ClaimStore.Claim

/-- Answers one step of a tracker session. -/
def trackerStep (t : Tracker) (j : Json) : Read (Json × Tracker) := do
  match ← text j "op" with
  | "count" => pure (obj [("count", .nat (t.claimants (← readResource j)))], t)
  | "inc" =>
    let c ← readResource j
    let (n, t) := t.increment c (← flagOr j "new" false)
    pure (obj [("count", .nat n)], t)
  | "dec" =>
    let (n, t) := t.decrement (← readResource j)
    pure (obj [("count", .nat n)], t)
  | "state" => pure (obj [("state", .str (t.state (← readResource j)).name)], t)
  | "in_use" => pure (obj [("in_use", .bool (t.inUse (← readResource j)))], t)
  | "freeze" =>
    let (b, t) := t.freeze (← readResource j)
    pure (obj [("frozen", .bool b)], t)
  | "mark" => pure (done, t.markDestructable (← readResource j))
  | "begin" =>
    let c ← readResource j
    let (b, t) := t.beginDestruction c (← readLifecycle j "target")
    pure (obj [("begun", .bool b)], t)
  | "finish" => pure (done, t.finishDestruction (← readResource j))
  | "abort" => pure (done, t.abortDestruction (← readResource j))
  | "drain" =>
    let (cs, t) := t.drainDestructable (← count j "max")
    pure (obj [("claims", .arr (cs.map fun c => .str c.slashed))], t)
  | "purge" => pure (done, t.purge)
  | "tracked" => pure (obj [("tracked", .nat t.tracked)], t)
  | "pending" => pure (obj [("pending", .nat t.pending)], t)
  | "debug" => pure (obj [("debug", .str t.describe)], t)
  | other => throw ("unknown step " ++ other)

/-- A tracker session as an answer. -/
def trackerAnswer (j : Json) : Read Json := do
  let capacity ← countOr j "capacity" Tracker.defaultCapacity
  let steps ← list j "steps"
  let t := if (← flagOr j "default" false) then Tracker.empty else Tracker.empty capacity
  pure (results (runSteps trackerStep t steps))

end ClaimStore.Script
