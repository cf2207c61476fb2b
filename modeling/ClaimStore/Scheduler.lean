import ClaimStore.Text.Quoted
/-!
# Task schedulers

A scheduler runs named jobs again and again, each after a fixed delay from the end of its
previous run; a delay of zero counts as one millisecond. Runs take no time here, so a job
scheduled at time `t` with delay `p` runs at `t + p`, `t + 2p`, and so on. A job that fails
keeps being scheduled. Once shut down, a scheduler runs nothing and takes no new jobs.
-/

namespace ClaimStore

/-- A scheduled job: its name, its delay and when it runs next, in milliseconds. -/
structure Task where
  name : String
  period : Nat
  next : Nat
  deriving DecidableEq, Repr

/-- A scheduler's jobs in the order they were scheduled, whether it runs, its clock, and how
many times jobs of each name have run. -/
structure Scheduler where
  tasks : List Task
  running : Bool
  now : Nat
  runs : List (String × Nat)
  deriving Repr

namespace Scheduler

/-- A running scheduler with no jobs. -/
def create (now : Nat) : Scheduler := ⟨[], true, now, []⟩

/-- How many times jobs of a name have run. -/
def runsOf (s : Scheduler) (name : String) : Nat :=
  ((s.runs.find? (·.1 == name)).map (·.2)).getD 0

/-- Counts one run of a job of a name. -/
def countRun (s : Scheduler) (name : String) : Scheduler :=
  let n := s.runsOf name + 1
  { s with runs := (name, n) :: s.runs.filter (·.1 != name) }

/-- Schedules a job, unless the scheduler is shut down. -/
def schedule (s : Scheduler) (name : String) (period : Nat) : Scheduler :=
  if s.running then
    let p := max period 1
    { s with tasks := s.tasks ++ [⟨name, p, s.now + p⟩] }
  else s

/-- The names of the jobs, in the order they were scheduled. -/
def names (s : Scheduler) : List String := s.tasks.map (·.name)

/-- Moves the clock one millisecond on, running every job that is due; answers the names of
the jobs that ran, in the order they were scheduled. -/
def step (s : Scheduler) : List String × Scheduler :=
  let now := s.now + 1
  if !s.running then ([], { s with now })
  else
    let due := s.tasks.filter (·.next ≤ now)
    let s := due.foldl (fun s t => s.countRun t.name) { s with now }
    (due.map (·.name),
      { s with tasks := s.tasks.map fun t => if t.next ≤ now then { t with next := now + t.period } else t })

/-- Moves the clock one millisecond on, running every job that is due. -/
def tick (s : Scheduler) : Scheduler := s.step.2

/-- Moves the clock `ms` milliseconds on. -/
def advance (s : Scheduler) : Nat → Scheduler
  | 0 => s
  | ms + 1 => (s.tick).advance ms

/-- Waits up to `timeout` milliseconds for jobs of a name to have run `min` times; answers
whether they did. -/
def waitRuns (s : Scheduler) (name : String) (min : Nat) : Nat → Bool × Scheduler
  | 0 => (min ≤ s.runsOf name, s)
  | fuel + 1 => if min ≤ s.runsOf name then (true, s) else (s.tick).waitRuns name min fuel

/-- Stops every job. -/
def shutdown (s : Scheduler) : Scheduler := { s with running := false }

/-- The scheduler as shown in sentences. -/
def describe (s : Scheduler) : String :=
  "TaskScheduler \x7b tasks: [" ++ ", ".intercalate (s.names.map Text.quote) ++ "], running: " ++
    toString s.running ++ " \x7d"

end Scheduler

end ClaimStore
