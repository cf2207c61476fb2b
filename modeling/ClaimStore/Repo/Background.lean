import ClaimStore.Repo.Reclaim
/-!
# Background work

A repository started with background work runs its scheduled jobs as time passes: time moves one
millisecond at a time, and at each millisecond every job that is due does its chore, in the
order the jobs were scheduled. Jobs take no time. Binning stops at shutdown, and an expiration
job's failures are ignored.
-/

namespace ClaimStore

open ClaimStore.Claim

namespace Action

/-- Does one chore. -/
def runChore : Chore → Action Unit
  | .bin => binDestructable
  | .reclaim name => do
    let _ ← archiveOrDestroy {} name
  | .expire name => do
    let _ ← attempt (expireWith name Container.expireScheduled)

/-- Does the chores of the jobs named, in order. -/
def runChores (names : List String) : Action Unit := do
  for name in names do
    match ((← repo).chores.find? (·.1 == name)) with
    | some (_, chore) => runChore chore
    | none => pure ()

/-- Moves time one millisecond on, doing every chore that is due. -/
def tick : Action Unit := do
  modifyHost fun h => { h with now := h.now + 1 }
  match (← repo).background with
  | none => pure ()
  | some s =>
    let (due, s) := s.step
    modifyRepo fun r => { r with background := some s }
    runChores due

/-- Moves time `ms` milliseconds on. -/
def pass : Nat → Action Unit
  | 0 => pure ()
  | ms + 1 => do
    tick
    pass ms

end Action

end ClaimStore
