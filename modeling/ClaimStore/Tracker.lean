import ClaimStore.Fifo
import ClaimStore.Claim.Basic
/-!
# Reference tracking

The tracker counts the claimants of each resource claim and keeps its lifecycle state. A claim
without a record counts as having no claimants and being frozen, so only claims that differ
from that hold a record. A claim that reaches no claimants while frozen loses its record and is
queued for destruction; the destruction queue is a `Fifo`, and a claim offered to a full queue
is dropped (a later cleanup finds its file).

Destruction is a check-and-set: `beginDestruction` moves a frozen claim without claimants to
archived or removed, and only then may its file be touched; `finishDestruction` forgets it and
`abortDestruction` puts it back to frozen.
-/

namespace ClaimStore

open ClaimStore.Claim

/-- The claimant count and state of a claim. -/
structure Tracker.Record where
  count : Nat
  state : Lifecycle
  deriving DecidableEq, Repr

namespace Tracker.Record

/-- What an untracked claim counts as: no claimants, frozen. -/
def unknown : Record := ⟨0, .frozen⟩

/-- A claim with no claimants that is frozen may be destroyed. -/
def destructable (r : Record) : Bool := r.count == 0 && r.state == .frozen

end Tracker.Record

/-- The name of a claim's file: container, section and id. -/
abbrev ClaimKey := String × String × String

/-- Claim records, at most one per claim, and the destruction queue. -/
structure Tracker where
  records : List (ClaimKey × Tracker.Record)
  queue : Fifo Resource

namespace Tracker

/-- The destruction queue's bound when none is asked for. -/
def defaultCapacity : Nat := 50000

/-- A tracker with no records and an empty queue of a capacity. -/
def empty (capacity : Nat := defaultCapacity) : Tracker := ⟨[], Fifo.empty capacity⟩

/-- The record of a claim, if it has one. -/
def find? (t : Tracker) (k : ClaimKey) : Option Record :=
  (t.records.find? (·.1 == k)).map (·.2)

/-- The record of a claim; an untracked claim counts as `Record.unknown`. -/
def record (t : Tracker) (k : ClaimKey) : Record := (t.find? k).getD .unknown

/-- Forgets a claim's record. -/
def erase (t : Tracker) (k : ClaimKey) : Tracker :=
  { t with records := t.records.filter (·.1 != k) }

/-- Sets a claim's record. -/
def put (t : Tracker) (k : ClaimKey) (r : Record) : Tracker :=
  { t with records := (k, r) :: t.records.filter (·.1 != k) }

/-- Offers a claim to the destruction queue; a full queue drops it. -/
def enqueue (t : Tracker) (c : Resource) : Tracker :=
  match t.queue.offer c with
  | some q => { t with queue := q }
  | none => t

/-- Sets a claim's record, or, when the record makes it destructable, forgets it and queues it. -/
def settle (t : Tracker) (c : Resource) (r : Record) : Tracker :=
  if r.destructable then (t.erase c.key).enqueue c else t.put c.key r

/-- How many claimants a claim has. -/
def claimants (t : Tracker) (c : Resource) : Nat := (t.record c.key).count

/-- A claim's lifecycle state. -/
def state (t : Tracker) (c : Resource) : Lifecycle := (t.record c.key).state

/-- A claim is in use while it has claimants or is writable. -/
def inUse (t : Tracker) (c : Resource) : Bool :=
  t.claimants c > 0 || (t.state c).isWritable

/-- Adds a claimant; a new claim becomes writable. Answers the new count. -/
def increment (t : Tracker) (c : Resource) (fresh : Bool) : Nat × Tracker :=
  let r := t.record c.key
  let r' : Record := ⟨r.count + 1, if fresh then .writable else r.state⟩
  (r'.count, t.put c.key r')

/-- Removes a claimant, never below zero. Answers the remaining count. -/
def decrement (t : Tracker) (c : Resource) : Nat × Tracker :=
  match t.find? c.key with
  | none => (0, t)
  | some r =>
    if r.count = 0 then (0, t)
    else
      let r' : Record := { r with count := r.count - 1 }
      (r'.count, t.settle c r')

/-- Freezes a writable claim; answers whether it was writable. -/
def freeze (t : Tracker) (c : Resource) : Bool × Tracker :=
  match t.find? c.key with
  | some r =>
    if r.state.isWritable then (true, t.settle c { r with state := .frozen }) else (false, t)
  | none => (false, t)

/-- Queues a claim for destruction if it is destructable. -/
def markDestructable (t : Tracker) (c : Resource) : Tracker :=
  if (t.find? c.key).all Record.destructable then t.enqueue c else t

/-- Starts destroying a claim towards `target` (archived or removed); succeeds only for a frozen
claim without claimants. A refused claim that is frozen without claimants loses its record. -/
def beginDestruction (t : Tracker) (c : Resource) (target : Lifecycle) : Bool × Tracker :=
  let r := t.record c.key
  if r.count > 0 || r.state != .frozen || !r.state.canMoveTo target then
    (false, if r.destructable then t.erase c.key else t)
  else (true, t.put c.key { r with state := target })

/-- Forgets a claim whose destruction has finished. -/
def finishDestruction (t : Tracker) (c : Resource) : Tracker :=
  match t.find? c.key with
  | some r => if r.state.isDestroyed then t.erase c.key else t
  | none => t

/-- Puts a claim whose destruction failed back to frozen; without claimants it loses its record. -/
def abortDestruction (t : Tracker) (c : Resource) : Tracker :=
  match t.find? c.key with
  | some r =>
    if r.state.isDestroyed then
      if r.count = 0 then t.erase c.key else t.put c.key { r with state := .frozen }
    else t
  | none => t

/-- Takes up to `max` claims from the destruction queue. -/
def drainDestructable (t : Tracker) (max : Nat) : List Resource × Tracker :=
  let (cs, q) := t.queue.drain max
  (cs, { t with queue := q })

/-- Forgets every record and empties the queue. -/
def purge (t : Tracker) : Tracker := ⟨[], t.queue.clear⟩

/-- How many claims hold a record. -/
def tracked (t : Tracker) : Nat := t.records.length

/-- How many claims wait in the destruction queue. -/
def pending (t : Tracker) : Nat := t.queue.size

/-- The tracker as shown in sentences. -/
def describe (t : Tracker) : String :=
  "InMemoryReferenceTracker \x7b tracked_claims: " ++ toString t.tracked ++
    ", pending_destruction: " ++ toString t.pending ++ " \x7d"

end Tracker

end ClaimStore
