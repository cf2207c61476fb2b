import ClaimStore.Tracker

set_option autoImplicit false

/-!
# The tracker read as a total map

A `Tracker` holds a record only for the claims that differ from an untracked one, and builds
the untracked record `(0, frozen)` again whenever it is asked about a claim it has none for.
Its contract reads more simply: every claim has a count and a state, `(0, frozen)` until a call
changes them, beside a first-in first-out queue of at most `bound` claims awaiting destruction.
`Total` is that reading and `Tracker.total` reads a tracker as one.

Main statements: `call_total`, one call of a tracker answers what the same call of its reading
answers and leaves the reading where that call leaves it; `replies_total`, the same for every
sequence of calls; and `replies_empty`, a fresh tracker answers every sequence of calls as a
fresh total map does. No invariant of the sparse list is needed: the reading forgets which
untracked claims happen to hold a record.
-/

namespace ClaimStore.Tracker
open ClaimStore.Claim

/-! ## Records by key -/

theorem find?_filter_ne (l : List (ClaimKey × Record)) (k k' : ClaimKey) (h : k' ≠ k) :
    (l.filter (·.1 != k)).find? (·.1 == k') = l.find? (·.1 == k') := by
  rw [List.find?_filter]
  congr 1
  funext e
  by_cases he : e.1 = k' <;> simp [he, h]

theorem find?_put (t : Tracker) (k k' : ClaimKey) (r : Record) :
    (t.put k r).find? k' = if k' = k then some r else t.find? k' := by
  by_cases h : k' = k
  · subst h
    simp [put, find?]
  · have hk : (k == k') = false := by simp [Ne.symm h]
    simp [put, find?, hk, h, find?_filter_ne t.records k k' h]

theorem find?_erase (t : Tracker) (k k' : ClaimKey) :
    (t.erase k).find? k' = if k' = k then none else t.find? k' := by
  by_cases h : k' = k
  · subst h
    simp [erase, find?, List.find?_filter]
  · simp [erase, find?, h, find?_filter_ne t.records k k' h]

theorem record_of_find? {t : Tracker} {k : ClaimKey} {r : Record} (h : t.find? k = some r) :
    t.record k = r := by
  simp [record, h]

theorem record_of_find?_none {t : Tracker} {k : ClaimKey} (h : t.find? k = none) :
    t.record k = .unknown := by
  simp [record, h]

theorem Record.destructable_iff (r : Record) : r.destructable = true ↔ r = .unknown := by
  cases r
  simp [Record.destructable, Record.unknown]

theorem enqueue_of_lt (t : Tracker) (c : Resource) (h : t.queue.items.length < t.queue.bound) :
    (t.enqueue c).records = t.records ∧ (t.enqueue c).queue.bound = t.queue.bound ∧
      (t.enqueue c).queue.items = t.queue.items ++ [c] := by
  simp [enqueue, Fifo.offer, h]

theorem enqueue_of_le (t : Tracker) (c : Resource) (h : t.queue.bound ≤ t.queue.items.length) :
    t.enqueue c = t := by
  have hn : ¬ t.queue.items.length < t.queue.bound := by omega
  simp [enqueue, Fifo.offer, hn]

/-! ## The reading -/

/-- A tracker as its contract reads it: a record for every claim, and the claims awaiting
destruction, at most `bound` of them. -/
structure Total where
  records : ClaimKey → Record
  queue : List Resource
  bound : Nat

namespace Total

/-- Nothing tracked and nothing queued, with room for `max capacity 1` claims. -/
def fresh (capacity : Nat) : Total := ⟨fun _ => ⟨0, .frozen⟩, [], max capacity 1⟩

def set (m : Total) (k : ClaimKey) (r : Record) : Total :=
  { m with records := fun k' => if k' = k then r else m.records k' }

/-- Queues a claim when there is room; a full queue drops it. -/
def offer (m : Total) (c : Resource) : Total :=
  if m.queue.length < m.bound then { m with queue := m.queue ++ [c] } else m

def increment (m : Total) (c : Resource) (fresh : Bool) : Nat × Total :=
  let r := m.records c.key
  (r.count + 1, m.set c.key ⟨r.count + 1, if fresh then .writable else r.state⟩)

def decrement (m : Total) (c : Resource) : Nat × Total :=
  let r := m.records c.key
  if r.count = 0 then (0, m)
  else
    let m' := m.set c.key ⟨r.count - 1, r.state⟩
    (r.count - 1, if r.count = 1 ∧ r.state = .frozen then m'.offer c else m')

def freeze (m : Total) (c : Resource) : Bool × Total :=
  let r := m.records c.key
  if r.state = .writable then
    let m' := m.set c.key ⟨r.count, .frozen⟩
    (true, if r.count = 0 then m'.offer c else m')
  else (false, m)

def mark (m : Total) (c : Resource) : Total :=
  let r := m.records c.key
  if r.count = 0 ∧ r.state = .frozen then m.offer c else m

/-- Moves a frozen claim without claimants to `target`, archived or removed. -/
def begin (m : Total) (c : Resource) (target : Lifecycle) : Bool × Total :=
  let r := m.records c.key
  if r.count = 0 ∧ r.state = .frozen ∧ (target = .archived ∨ target = .removed) then
    (true, m.set c.key ⟨0, target⟩)
  else (false, m)

def finish (m : Total) (c : Resource) : Total :=
  let r := m.records c.key
  if r.state = .archived ∨ r.state = .removed then m.set c.key ⟨0, .frozen⟩ else m

/-- Puts a claim being destroyed back to frozen, keeping its claimants. -/
def abort (m : Total) (c : Resource) : Total :=
  let r := m.records c.key
  if r.state = .archived ∨ r.state = .removed then m.set c.key ⟨r.count, .frozen⟩ else m

def drain (m : Total) (max : Nat) : List Resource × Total :=
  (m.queue.take max, { m with queue := m.queue.drop max })

def purge (m : Total) : Total := { m with records := fun _ => ⟨0, .frozen⟩, queue := [] }

end Total

def total (t : Tracker) : Total := ⟨t.record, t.queue.items, t.queue.bound⟩

@[simp] theorem total_records (t : Tracker) : t.total.records = t.record := rfl

theorem Total.set_of_eq (m : Total) (k : ClaimKey) (r : Record) (h : m.records k = r) :
    m.set k r = m := by
  cases m
  simp only [Total.set, Total.mk.injEq, and_true]
  funext k'
  by_cases hk : k' = k
  · subst hk
    simpa using h.symm
  · simp [hk]

theorem total_put (t : Tracker) (k : ClaimKey) (r : Record) :
    (t.put k r).total = t.total.set k r := by
  simp only [total, Total.set, Total.mk.injEq]
  refine ⟨?_, rfl, rfl⟩
  funext k'
  by_cases h : k' = k <;> simp [record, find?_put, h]

theorem total_erase (t : Tracker) (k : ClaimKey) :
    (t.erase k).total = t.total.set k .unknown := by
  simp only [total, Total.set, Total.mk.injEq]
  refine ⟨?_, rfl, rfl⟩
  funext k'
  by_cases h : k' = k <;> simp [record, find?_erase, h]

theorem total_enqueue (t : Tracker) (c : Resource) :
    (t.enqueue c).total = t.total.offer c := by
  unfold Total.offer
  split <;> rename_i hlen
  · obtain ⟨hr, hb, hi⟩ := enqueue_of_lt t c hlen
    have hrec : (t.enqueue c).record = t.record := by
      funext k
      simp [record, find?, hr]
    simp [total, hrec, hb, hi]
  · rw [enqueue_of_le t c (by simpa [total] using hlen)]

theorem total_settle (t : Tracker) (c : Resource) (r : Record) :
    (t.settle c r).total =
      if r.destructable then (t.total.set c.key r).offer c else t.total.set c.key r := by
  unfold settle
  split <;> rename_i h
  · rw [(Record.destructable_iff r).1 h, total_enqueue, total_erase]
  · rw [total_put]

/-! ## One operation at a time -/

theorem increment_total (t : Tracker) (c : Resource) (fresh : Bool) :
    Prod.map id total (t.increment c fresh) = t.total.increment c fresh := by
  simp [increment, Total.increment, total_put]

theorem decrement_total (t : Tracker) (c : Resource) :
    Prod.map id total (t.decrement c) = t.total.decrement c := by
  unfold decrement Total.decrement
  cases hf : t.find? c.key with
  | none => simp [record_of_find?_none hf, Record.unknown]
  | some r =>
    simp only [total_records, record_of_find? hf]
    by_cases h0 : r.count = 0
    · simp [h0]
    -- the record is dropped, and the claim queued, exactly when it comes to `(0, frozen)`
    · have hr : r.count - 1 = 0 ↔ r.count = 1 := by omega
      by_cases hs : r.state = .frozen
      · simp [h0, total_settle, Record.destructable, hs, hr]
      · simp [h0, total_settle, Record.destructable, hs]

theorem freeze_total (t : Tracker) (c : Resource) :
    Prod.map id total (t.freeze c) = t.total.freeze c := by
  unfold freeze Total.freeze
  cases hf : t.find? c.key with
  | none => simp [record_of_find?_none hf, Record.unknown]
  | some r =>
    simp only [total_records, record_of_find? hf]
    by_cases hw : r.state = .writable
    · simp [hw, Lifecycle.isWritable, total_settle, Record.destructable]
    · simp [hw, Lifecycle.isWritable]

theorem markDestructable_total (t : Tracker) (c : Resource) :
    (t.markDestructable c).total = t.total.mark c := by
  unfold markDestructable Total.mark
  cases hf : t.find? c.key with
  | none => simp [record_of_find?_none hf, Record.unknown, total_enqueue]
  | some r =>
    simp only [total_records, record_of_find? hf]
    by_cases hd : r.count = 0 ∧ r.state = .frozen
    · simp [hd, Record.destructable, total_enqueue]
    · have hn : r.destructable = false := by
        simpa [Record.destructable] using hd
      simp [hd, hn]

theorem beginDestruction_total (t : Tracker) (c : Resource) (target : Lifecycle) :
    Prod.map id total (t.beginDestruction c target) = t.total.begin c target := by
  unfold beginDestruction Total.begin
  simp only [total_records]
  by_cases hok : (t.record c.key).count = 0 ∧ (t.record c.key).state = .frozen ∧
      (target = .archived ∨ target = .removed)
  · obtain ⟨h0, hs, ht⟩ := hok
    have hmove : Lifecycle.frozen.canMoveTo target = true := by
      rcases ht with rfl | rfl <;> rfl
    simp only [h0, hs, hmove]
    simp [ht, total_put]
  · have hrefused : (decide ((t.record c.key).count > 0) || (t.record c.key).state != .frozen ||
        !(t.record c.key).state.canMoveTo target) = true := by
      generalize t.record c.key = r at hok ⊢
      rcases r with ⟨n, s⟩
      cases s <;> cases target <;> simp_all [Lifecycle.canMoveTo] <;> omega
    -- a refused claim loses its record only when that record is the untracked one anyway
    have hkept : (if (t.record c.key).destructable = true then t.erase c.key else t).total =
        t.total := by
      split <;> rename_i hd
      · rw [total_erase, Total.set_of_eq _ _ _ ((Record.destructable_iff _).1 hd)]
      · rfl
    simp [hrefused, hkept, hok]

theorem finishDestruction_total (t : Tracker) (c : Resource) :
    (t.finishDestruction c).total = t.total.finish c := by
  unfold finishDestruction Total.finish
  cases hf : t.find? c.key with
  | none => simp [record_of_find?_none hf, Record.unknown]
  | some r =>
    simp only [total_records, record_of_find? hf]
    cases hs : r.state <;> simp [Lifecycle.isDestroyed, total_erase, Record.unknown]

theorem abortDestruction_total (t : Tracker) (c : Resource) :
    (t.abortDestruction c).total = t.total.abort c := by
  unfold abortDestruction Total.abort
  cases hf : t.find? c.key with
  | none => simp [record_of_find?_none hf, Record.unknown]
  | some r =>
    simp only [total_records, record_of_find? hf]
    by_cases h0 : r.count = 0
    · cases hs : r.state <;> simp [Lifecycle.isDestroyed, h0, total_erase, Record.unknown]
    · cases hs : r.state <;> simp [Lifecycle.isDestroyed, h0, total_put]

theorem drainDestructable_total (t : Tracker) (max : Nat) :
    Prod.map id total (t.drainDestructable max) = t.total.drain max := by
  simp only [drainDestructable, Total.drain, total, Prod.map, id, Fifo.drain_taken,
    Fifo.drain_items]
  rfl

theorem purge_total (t : Tracker) : t.purge.total = t.total.purge := by
  simp only [purge, total, Total.purge, Total.mk.injEq]
  refine ⟨?_, rfl, rfl⟩
  funext k
  simp [record, find?, Record.unknown]

/-! ## Calls -/

/-- A call of a tracker's interface. -/
inductive Call where
  | claimants (c : Resource)
  | increment (c : Resource) (fresh : Bool)
  | decrement (c : Resource)
  | state (c : Resource)
  | inUse (c : Resource)
  | freeze (c : Resource)
  | mark (c : Resource)
  | begin (c : Resource) (target : Lifecycle)
  | finish (c : Resource)
  | abort (c : Resource)
  | drain (max : Nat)
  | purge
  deriving DecidableEq, Repr

inductive Reply where
  | count (n : Nat)
  | state (s : Lifecycle)
  | flag (b : Bool)
  | claims (cs : List Resource)
  | done
  deriving DecidableEq, Repr

/-- Makes a call of a tracker. -/
def call (t : Tracker) : Call → Reply × Tracker
  | .claimants c => (.count (t.claimants c), t)
  | .increment c fresh => (t.increment c fresh).map .count id
  | .decrement c => (t.decrement c).map .count id
  | .state c => (.state (t.state c), t)
  | .inUse c => (.flag (t.inUse c), t)
  | .freeze c => (t.freeze c).map .flag id
  | .mark c => (.done, t.markDestructable c)
  | .begin c target => (t.beginDestruction c target).map .flag id
  | .finish c => (.done, t.finishDestruction c)
  | .abort c => (.done, t.abortDestruction c)
  | .drain max => (t.drainDestructable max).map .claims id
  | .purge => (.done, t.purge)

/-- The answers to calls made one after another. -/
def replies (t : Tracker) : List Call → List Reply
  | [] => []
  | op :: ops => (t.call op).1 :: (t.call op).2.replies ops

namespace Total

def call (m : Total) : Call → Reply × Total
  | .claimants c => (.count (m.records c.key).count, m)
  | .increment c fresh => (m.increment c fresh).map .count id
  | .decrement c => (m.decrement c).map .count id
  | .state c => (.state (m.records c.key).state, m)
  | .inUse c =>
    (.flag (decide ((m.records c.key).count > 0 ∨ (m.records c.key).state = .writable)), m)
  | .freeze c => (m.freeze c).map .flag id
  | .mark c => (.done, m.mark c)
  | .begin c target => (m.begin c target).map .flag id
  | .finish c => (.done, m.finish c)
  | .abort c => (.done, m.abort c)
  | .drain max => (m.drain max).map .claims id
  | .purge => (.done, m.purge)

def replies (m : Total) : List Call → List Reply
  | [] => []
  | op :: ops => (m.call op).1 :: (m.call op).2.replies ops

end Total

/-- One call of a tracker answers as the same call of its reading, and leaves the reading
where that call leaves it. -/
theorem call_total (t : Tracker) (op : Call) : Prod.map id total (t.call op) = t.total.call op := by
  cases op with
  | claimants c => rfl
  | increment c fresh =>
    have h := increment_total t c fresh
    simp only [call, Total.call, ← h]
    rfl
  | decrement c =>
    have h := decrement_total t c
    simp only [call, Total.call, ← h]
    rfl
  | state c => rfl
  | inUse c =>
    simp [call, Total.call, inUse, claimants, state, Lifecycle.isWritable, Bool.beq_eq_decide_eq]
  | freeze c =>
    have h := freeze_total t c
    simp only [call, Total.call, ← h]
    rfl
  | mark c => simp [call, Total.call, markDestructable_total]
  | begin c target =>
    have h := beginDestruction_total t c target
    simp only [call, Total.call, ← h]
    rfl
  | finish c => simp [call, Total.call, finishDestruction_total]
  | abort c => simp [call, Total.call, abortDestruction_total]
  | drain max =>
    have h := drainDestructable_total t max
    simp only [call, Total.call, ← h]
    rfl
  | purge => simp [call, Total.call, purge_total]

theorem replies_total (t : Tracker) (ops : List Call) : t.replies ops = t.total.replies ops := by
  induction ops generalizing t with
  | nil => rfl
  | cons op ops ih =>
    have h := call_total t op
    have hreply : (t.call op).1 = (t.total.call op).1 := congrArg Prod.fst h
    have hnext : (t.call op).2.total = (t.total.call op).2 := congrArg Prod.snd h
    simp only [replies, Total.replies, hreply, ih, hnext]

theorem total_empty (capacity : Nat) : (Tracker.empty capacity).total = Total.fresh capacity := by
  simp only [total, Total.fresh, Total.mk.injEq]
  refine ⟨?_, rfl, rfl⟩
  funext k
  simp [empty, record, find?, Record.unknown]

/-- A fresh tracker of any capacity answers every sequence of calls as a fresh total map with a
queue of that capacity (at least one) does. -/
theorem replies_empty (capacity : Nat) (ops : List Call) :
    (Tracker.empty capacity).replies ops = (Total.fresh capacity).replies ops := by
  rw [replies_total, total_empty]

end ClaimStore.Tracker
