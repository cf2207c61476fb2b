import ClaimStore.Proofs.Tracker.TotalMap
/-!
# One claim's record under each tracker operation

Each operation of a tracker changes the record of the claim it is called for and no other, and
at most offers that claim to the destruction queue. These lemmas read that off the total-map
reading of `TotalMap`, one per operation, in the form the repository's proofs use them: the
record of any key after the call, and where the queue's claims come from.
-/

set_option autoImplicit false

namespace ClaimStore.Tracker

open ClaimStore.Claim

@[simp] theorem Total.records_offer (m : Total) (c : Resource) : (m.offer c).records = m.records := by
  unfold Total.offer
  split <;> rfl

@[simp] theorem total_queue (t : Tracker) : t.total.queue = t.queue.items := rfl

theorem Total.records_set (m : Total) (k k' : ClaimKey) (r : Record) :
    (m.set k r).records k' = if k' = k then r else m.records k' := rfl

variable (t : Tracker) (c : Resource) (k : ClaimKey)

theorem record_increment (fresh : Bool) : (t.increment c fresh).2.record k =
    if k = c.key then ⟨(t.record c.key).count + 1,
      if fresh then .writable else (t.record c.key).state⟩ else t.record k := by
  have h := congrArg (fun p => p.2.records k) (increment_total t c fresh)
  simpa [Total.increment, Total.set] using h

theorem record_decrement : (t.decrement c).2.record k =
    if k = c.key ∧ 0 < (t.record c.key).count then
      ⟨(t.record c.key).count - 1, (t.record c.key).state⟩ else t.record k := by
  have h := congrArg (fun p => p.2.records k) (decrement_total t c)
  simp only [Prod.map, id, total_records, Total.decrement] at h
  rw [h]
  by_cases h0 : (t.record c.key).count = 0
  · simp [h0]
  · have hpos : 0 < (t.record c.key).count := Nat.pos_of_ne_zero h0
    -- the claim is queued when its count reaches zero while frozen; the records agree either way
    by_cases h1 : (t.record c.key).count = 1 ∧ (t.record c.key).state = .frozen
    · by_cases hk : k = c.key
      · subst hk
        simp [h1, Total.records_set]
      · simp [h1, Total.records_set, hk]
    · by_cases hk : k = c.key
      · subst hk
        simp [h0, h1, Total.records_set, hpos]
      · simp [h0, h1, Total.records_set, hk]

theorem record_freeze : (t.freeze c).2.record k =
    if k = c.key ∧ (t.record c.key).state = .writable then
      ⟨(t.record c.key).count, .frozen⟩ else t.record k := by
  have h := congrArg (fun p => p.2.records k) (freeze_total t c)
  simp only [Prod.map, id, total_records, Total.freeze] at h
  rw [h]
  by_cases hw : (t.record c.key).state = .writable
  · by_cases h0 : (t.record c.key).count = 0
    · by_cases hk : k = c.key
      · subst hk
        simp [hw, h0, Total.records_set]
      · simp [hw, h0, Total.records_set, hk]
    · by_cases hk : k = c.key
      · subst hk
        simp [hw, h0, Total.records_set]
      · simp [hw, h0, Total.records_set, hk]
  · simp [hw]

theorem record_beginDestruction (target : Lifecycle) : (t.beginDestruction c target).2.record k =
    if k = c.key ∧ (t.beginDestruction c target).1 = true then ⟨0, target⟩ else t.record k := by
  have h := beginDestruction_total t c target
  simp only [Prod.map, id, Total.begin] at h
  have h1 := congrArg Prod.fst h
  have h2 := congrArg (fun p => p.2.records k) h
  simp only [total_records] at h1 h2
  rw [h2, h1]
  by_cases hc : (t.record c.key).count = 0 ∧ (t.record c.key).state = .frozen ∧
      (target = .archived ∨ target = .removed) <;>
    by_cases hk : k = c.key <;> simp [hc, hk, Total.records_set]

theorem beginDestruction_fst (target : Lifecycle) : (t.beginDestruction c target).1 = true ↔
    (t.record c.key).count = 0 ∧ (t.record c.key).state = .frozen ∧
      (target = .archived ∨ target = .removed) := by
  have h1 := congrArg Prod.fst (beginDestruction_total t c target)
  simp only [Prod.map, id, Total.begin, total_records] at h1
  rw [h1]
  by_cases hc : (t.record c.key).count = 0 ∧ (t.record c.key).state = .frozen ∧
      (target = .archived ∨ target = .removed) <;> simp [hc]

theorem record_finishDestruction : (t.finishDestruction c).record k =
    if k = c.key ∧ ((t.record c.key).state = .archived ∨ (t.record c.key).state = .removed) then
      ⟨0, .frozen⟩ else t.record k := by
  have h := congrArg (fun m => m.records k) (finishDestruction_total t c)
  simp only [total_records, Total.finish] at h
  rw [h]
  by_cases hc : (t.record c.key).state = .archived ∨ (t.record c.key).state = .removed <;>
    by_cases hk : k = c.key <;> simp [hc, hk, Total.records_set]

theorem record_abortDestruction : (t.abortDestruction c).record k =
    if k = c.key ∧ ((t.record c.key).state = .archived ∨ (t.record c.key).state = .removed) then
      ⟨(t.record c.key).count, .frozen⟩ else t.record k := by
  have h := congrArg (fun m => m.records k) (abortDestruction_total t c)
  simp only [total_records, Total.abort] at h
  rw [h]
  by_cases hc : (t.record c.key).state = .archived ∨ (t.record c.key).state = .removed <;>
    by_cases hk : k = c.key <;> simp [hc, hk, Total.records_set]

theorem record_drainDestructable (max : Nat) : (t.drainDestructable max).2.record k = t.record k := by
  have h := congrArg (fun p => p.2.records k) (drainDestructable_total t max)
  simpa [Total.drain] using h

theorem state_finish_of_begin {target : Lifecycle} (hb : (t.beginDestruction c target).1 = true) :
    (((t.beginDestruction c target).2.finishDestruction c).record k).state = (t.record k).state := by
  obtain ⟨-, hfrozen, htarget⟩ := (beginDestruction_fst t c target).1 hb
  rw [record_finishDestruction, record_beginDestruction, record_beginDestruction]
  by_cases hk : k = c.key
  · subst hk
    rcases htarget with rfl | rfl <;> simp [hb, hfrozen]
  · simp [hk]

theorem state_abort_of_begin {target : Lifecycle} (hb : (t.beginDestruction c target).1 = true) :
    (((t.beginDestruction c target).2.abortDestruction c).record k).state = (t.record k).state := by
  obtain ⟨-, hfrozen, htarget⟩ := (beginDestruction_fst t c target).1 hb
  rw [record_abortDestruction, record_beginDestruction, record_beginDestruction]
  by_cases hk : k = c.key
  · subst hk
    rcases htarget with rfl | rfl <;> simp [hb, hfrozen]
  · simp [hk]

theorem record_finish_of_begin {target : Lifecycle} (hb : (t.beginDestruction c target).1 = true) :
    ((t.beginDestruction c target).2.finishDestruction c).record k = t.record k := by
  obtain ⟨hzero, hfrozen, htarget⟩ := (beginDestruction_fst t c target).1 hb
  rw [record_finishDestruction, record_beginDestruction, record_beginDestruction]
  by_cases hk : k = c.key
  · subst hk
    have hrec : t.record c.key = ⟨0, .frozen⟩ := by rw [← hzero, ← hfrozen]
    rcases htarget with rfl | rfl <;> simp [hb, hrec]
  · simp [hk]

theorem record_abort_of_begin {target : Lifecycle} (hb : (t.beginDestruction c target).1 = true) :
    ((t.beginDestruction c target).2.abortDestruction c).record k = t.record k := by
  obtain ⟨hzero, hfrozen, htarget⟩ := (beginDestruction_fst t c target).1 hb
  rw [record_abortDestruction, record_beginDestruction, record_beginDestruction]
  by_cases hk : k = c.key
  · subst hk
    have hrec : t.record c.key = ⟨0, .frozen⟩ := by rw [← hzero, ← hfrozen]
    rcases htarget with rfl | rfl <;> simp [hb, hrec]
  · simp [hk]

theorem record_of_not_begin {target : Lifecycle} (hb : (t.beginDestruction c target).1 = false) :
    (t.beginDestruction c target).2.record k = t.record k := by
  rw [record_beginDestruction, hb]
  simp

/-! ## The queue -/

theorem queue_increment (fresh : Bool) : (t.increment c fresh).2.queue = t.queue := rfl

theorem mem_queue_enqueue {x : Resource} (hx : x ∈ (t.enqueue c).queue.items) :
    x ∈ t.queue.items ∨ x = c := by
  unfold enqueue Fifo.offer at hx
  split at hx <;> rename_i h
  · split at h
    · cases h
      simpa using hx
    · cases h
  · exact .inl hx

theorem mem_queue_settle {r : Record} {x : Resource} (hx : x ∈ (t.settle c r).queue.items) :
    x ∈ t.queue.items ∨ x = c := by
  unfold settle at hx
  split at hx
  · exact mem_queue_enqueue (t.erase c.key) c hx
  · exact .inl hx

theorem mem_queue_decrement {x : Resource} (hx : x ∈ (t.decrement c).2.queue.items) :
    x ∈ t.queue.items ∨ x = c := by
  unfold decrement at hx
  split at hx
  · exact .inl hx
  · split at hx
    · exact .inl hx
    · exact mem_queue_settle t c hx

theorem mem_queue_freeze {x : Resource} (hx : x ∈ (t.freeze c).2.queue.items) :
    x ∈ t.queue.items ∨ x = c := by
  unfold freeze at hx
  split at hx
  · split at hx
    · exact mem_queue_settle t c hx
    · exact .inl hx
  · exact .inl hx

theorem queue_beginDestruction (target : Lifecycle) :
    (t.beginDestruction c target).2.queue.items = t.queue.items := by
  have h := congrArg (fun p => p.2.queue) (beginDestruction_total t c target)
  simp only [Prod.map, id, Total.begin] at h
  by_cases hc : (t.record c.key).count = 0 ∧ (t.record c.key).state = .frozen ∧
      (target = .archived ∨ target = .removed) <;> simpa [hc, Total.set] using h

theorem queue_finishDestruction : (t.finishDestruction c).queue.items = t.queue.items := by
  have h := congrArg Total.queue (finishDestruction_total t c)
  simp only [Total.finish] at h
  by_cases hc : (t.record c.key).state = .archived ∨ (t.record c.key).state = .removed <;>
    simpa [hc, Total.set] using h

theorem queue_abortDestruction : (t.abortDestruction c).queue.items = t.queue.items := by
  have h := congrArg Total.queue (abortDestruction_total t c)
  simp only [Total.abort] at h
  by_cases hc : (t.record c.key).state = .archived ∨ (t.record c.key).state = .removed <;>
    simpa [hc, Total.set] using h

end ClaimStore.Tracker
