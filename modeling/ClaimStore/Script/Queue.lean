import ClaimStore.Fifo
import ClaimStore.Script.Request
/-!
# Queue sessions

A session drives one queue of JSON values. Beside the caller there may be one helper: it sleeps
for a delay, then polls or offers once. Time is simulated in milliseconds. Steps take no time;
a waiting offer or drain lasts until the helper has acted, if it acts before the wait runs out,
and otherwise until the wait runs out. A helper that is due has acted before the next step.
-/

namespace ClaimStore.Script

open ClaimStore.Text

/-- What the helper does when its delay is over. -/
inductive HelperJob where
  | poll
  | offer (value : Json)

/-- The helper of a session: none, sleeping until a time, or done with its answer. -/
inductive Helper where
  | none
  | sleeping (wakes : Nat) (job : HelperJob)
  | done (answer : Json)

/-- A queue session: the queue, the clock and the helper. -/
structure QueueSession where
  queue : Fifo Json
  now : Nat
  helper : Helper

namespace QueueSession

/-- The helper's action on a queue, with its answer. -/
def act (q : Fifo Json) : HelperJob → Json × Fifo Json
  | .poll => (obj [("value", q.peek.getD .null)], q.poll.2)
  | .offer v =>
    match q.offer v with
    | some q' => (obj [("accepted", .bool true)], q')
    | none => (obj [("accepted", .bool false)], q)

/-- Lets a sleeping helper act if it wakes by `deadline`; the clock moves to its waking time
when that is later. -/
def settle (s : QueueSession) (deadline : Nat) : QueueSession :=
  match s.helper with
  | .sleeping t job =>
    if t ≤ deadline then
      let (a, q) := act s.queue job
      { queue := q, now := max s.now t, helper := .done a }
    else s
  | _ => s

/-- Offers a value, waiting up to `timeout` for room. -/
def offerWaiting (s : QueueSession) (v : Json) (timeout : Nat) : Json × QueueSession :=
  let s := if s.queue.isFull then s.settle (s.now + timeout) else s
  match s.queue.offer v with
  | some q => (obj [("accepted", .bool true)], { s with queue := q })
  | none =>
    (obj [("accepted", .bool false), ("returned", v)], { s with now := s.now + timeout })

/-- Drains up to `max` values, waiting up to `timeout` for the first. -/
def drainWaiting (s : QueueSession) (max timeout : Nat) : Json × QueueSession :=
  let s := if s.queue.isEmpty then s.settle (s.now + timeout) else s
  let s := if s.queue.isEmpty then { s with now := s.now + timeout } else s
  let (vs, q) := s.queue.drain max
  (obj [("values", .arr vs)], { s with queue := q })

/-- The value a step offers; null is a value too. -/
def offered (j : Json) : Read Json :=
  match j.field? "value" with
  | some v => pure v
  | none => throw "missing field value"

/-- Answers one step. -/
def step (s₀ : QueueSession) (j : Json) : Read (Json × QueueSession) := do
  let s := s₀.settle s₀.now
  let q := s.queue
  match ← text j "op" with
  | "offer" =>
    let v ← offered j
    match q.offer v with
    | some q' => pure (obj [("accepted", .bool true)], { s with queue := q' })
    | none => pure (obj [("accepted", .bool false), ("returned", v)], s)
  | "offer_timeout" =>
    let v ← offered j
    pure (s.offerWaiting v (← count j "timeout_ms"))
  | "poll" => pure (obj [("value", q.peek.getD .null)], { s with queue := q.poll.2 })
  | "peek" => pure (obj [("value", q.peek.getD .null)], s)
  | "drain" => pure (s.drainWaiting (← count j "max") 0)
  | "drain_wait" => pure (s.drainWaiting (← count j "max") (← count j "timeout_ms"))
  | "clear" => pure (done, { s with queue := q.clear })
  | "len" => pure (obj [("len", .nat q.size)], s)
  | "is_empty" => pure (obj [("is_empty", .bool q.isEmpty)], s)
  | "capacity" => pure (obj [("capacity", .nat q.bound)], s)
  | "debug" =>
    pure (obj [("debug", .str ("BoundedQueue \x7b len: " ++ toString q.size ++ ", capacity: " ++
      toString q.bound ++ " \x7d"))], s)
  | "spawn_poll" =>
    pure (done, { s with helper := .sleeping (s.now + (← count j "delay_ms")) .poll })
  | "spawn_offer" =>
    let v ← offered j
    pure (done, { s with helper := .sleeping (s.now + (← count j "delay_ms")) (.offer v) })
  | "join" =>
    let s := match s.helper with
      | .sleeping t _ => s.settle t
      | _ => s
    match s.helper with
    | .done a => pure (a, { s with helper := .none })
    | _ => throw "no helper thread"
  | other => throw ("unknown step " ++ other)

end QueueSession

/-- A queue session as an answer. -/
def queueAnswer (j : Json) : Read Json := do
  let capacity ← count j "capacity"
  let steps ← list j "steps"
  pure (results (runSteps QueueSession.step ⟨Fifo.empty capacity, 0, .none⟩ steps))

end ClaimStore.Script
