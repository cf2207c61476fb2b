import ClaimStore.Prelude
/-!
# Bounded first-in first-out queues

A `Fifo` holds its items as a list, oldest first, and never more than its bound, which is at
least one. Offering to a full queue hands the item back; polling and draining take from the
front. The pool of writable claims, the reclaim bins, the destruction queue and the archived-file
queue are all of this kind.

The small lemmas here say what each operation does to `items`.
-/

namespace ClaimStore

/-- A queue of at most `bound` items, oldest first. -/
structure Fifo (α : Type) where
  items : List α
  bound : Nat
  bound_pos : 0 < bound
  fits : items.length ≤ bound

namespace Fifo

variable {α : Type}

/-- An empty queue; a capacity of zero is taken as one. -/
def empty (capacity : Nat) : Fifo α :=
  ⟨[], max capacity 1, by omega, by simp⟩

/-- How many items are queued. -/
def size (q : Fifo α) : Nat := q.items.length

/-- Whether nothing is queued. -/
def isEmpty (q : Fifo α) : Bool := q.items.isEmpty

/-- Whether the queue is at its bound. -/
def isFull (q : Fifo α) : Bool := q.bound ≤ q.items.length

/-- Appends an item, unless the queue is full (`none`: the caller keeps the item). -/
def offer (q : Fifo α) (x : α) : Option (Fifo α) :=
  if h : q.items.length < q.bound then
    some ⟨q.items ++ [x], q.bound, q.bound_pos, by rw [List.length_append, List.length_singleton]; exact h⟩
  else none

/-- The oldest item, left in place. -/
def peek (q : Fifo α) : Option α := q.items.head?

/-- Takes the oldest item. -/
def poll (q : Fifo α) : Option α × Fifo α :=
  (q.items.head?, ⟨q.items.tail, q.bound, q.bound_pos,
    Nat.le_trans (by simp) q.fits⟩)

/-- Takes up to `max` items from the front, in order. -/
def drain (q : Fifo α) (max : Nat) : List α × Fifo α :=
  (q.items.take max, ⟨q.items.drop max, q.bound, q.bound_pos,
    Nat.le_trans (by simp) q.fits⟩)

/-- Removes every item. -/
def clear (q : Fifo α) : Fifo α := ⟨[], q.bound, q.bound_pos, by simp⟩

/-- Keeps the items that satisfy `p`, in order. -/
def keep (q : Fifo α) (p : α → Bool) : Fifo α :=
  ⟨q.items.filter p, q.bound, q.bound_pos,
    Nat.le_trans (List.length_filter_le _ _) q.fits⟩

@[simp] theorem items_empty (capacity : Nat) : (empty capacity : Fifo α).items = [] := rfl

@[simp] theorem bound_empty (capacity : Nat) : (empty capacity : Fifo α).bound = max capacity 1 :=
  rfl

theorem offer_items (q : Fifo α) (x : α) :
    (q.offer x).map Fifo.items = if q.items.length < q.bound then some (q.items ++ [x]) else none := by
  unfold offer
  split <;> simp_all

@[simp] theorem poll_items (q : Fifo α) : (q.poll).2.items = q.items.tail := rfl

@[simp] theorem drain_items (q : Fifo α) (max : Nat) : (q.drain max).2.items = q.items.drop max :=
  rfl

@[simp] theorem drain_taken (q : Fifo α) (max : Nat) : (q.drain max).1 = q.items.take max := rfl

@[simp] theorem clear_items (q : Fifo α) : q.clear.items = [] := rfl

end Fifo

end ClaimStore
