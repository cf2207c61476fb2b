import ClaimStore.Proofs.Tracker.Records
/-!
# Undoing a destruction or a registration

A destruction that begins and then fails is undone by `abortDestruction`, and a claim registered
for a file that could not be opened is undone by a freeze followed by a decrement. Both undo by
forgetting: a claim left frozen without claimants holds no record. This file says what the
tracker keeps through either: the destruction queue is never touched by a destruction, a claim
without a record keeps having none (`Destroys.find?`), and a released registration leaves the
claim with the claimants it had.
-/

set_option autoImplicit false

namespace ClaimStore.Tracker

open ClaimStore.Claim

variable (t : Tracker) (c : Resource)

/-! ## Beginning a destruction -/

theorem beginDestruction_of_inUse (h : t.inUse c = true) (target : Lifecycle) :
    t.beginDestruction c target = (false, t) := by
  unfold inUse claimants state at h
  have hd : (t.record c.key).destructable = false := by
    cases hr : t.record c.key with
    | mk n st =>
      rw [hr] at h
      cases st <;> cases n <;> simp_all [Record.destructable, Lifecycle.isWritable]
  unfold beginDestruction
  rw [if_pos, hd]
  · rfl
  · cases hr : t.record c.key with
    | mk n st =>
      rw [hr] at h
      cases st <;> cases n <;> simp_all [Lifecycle.isWritable]

theorem beginDestruction_of_fst {target : Lifecycle} (hb : (t.beginDestruction c target).1 = true) :
    t.beginDestruction c target = (true, t.put c.key ⟨0, target⟩) := by
  obtain ⟨hzero, hfrozen, htarget⟩ := (beginDestruction_fst t c target).1 hb
  unfold beginDestruction
  rw [if_neg]
  · simp [hzero]
  · rcases htarget with rfl | rfl <;> simp [hzero, hfrozen, Lifecycle.canMoveTo]

/-! ## The destruction queue stays as it is -/

theorem queue_beginDestruction_eq (target : Lifecycle) :
    (t.beginDestruction c target).2.queue = t.queue := by
  unfold beginDestruction
  dsimp only
  split
  · split <;> rfl
  · rfl

theorem queue_abortDestruction_eq : (t.abortDestruction c).queue = t.queue := by
  unfold abortDestruction
  split
  · split
    · split <;> rfl
    · rfl
  · rfl

theorem queue_finishDestruction_eq : (t.finishDestruction c).queue = t.queue := by
  unfold finishDestruction
  split
  · split <;> rfl
  · rfl

/-! ## A forgotten claim stays forgotten -/

variable (k : ClaimKey)

theorem find?_of_not_begin {target : Lifecycle} (hb : (t.beginDestruction c target).1 = false)
    (hk : t.find? k = none) : (t.beginDestruction c target).2.find? k = none := by
  unfold beginDestruction at hb ⊢
  dsimp only at hb ⊢
  split
  · split
    · rw [find?_erase]
      split <;> simp [hk]
    · exact hk
  · next h => simp [h] at hb

theorem find?_finish_of_begin {target : Lifecycle} (hb : (t.beginDestruction c target).1 = true) :
    ((t.beginDestruction c target).2.finishDestruction c).find? k =
      if k = c.key then none else t.find? k := by
  obtain ⟨-, -, htarget⟩ := (beginDestruction_fst t c target).1 hb
  have hd : target.isDestroyed = true := by rcases htarget with rfl | rfl <;> rfl
  rw [beginDestruction_of_fst t c hb]
  unfold finishDestruction
  rw [find?_put, if_pos rfl]
  simp only [hd, ↓reduceIte, find?_erase, find?_put]
  split <;> rfl

theorem find?_abort_of_begin {target : Lifecycle} (hb : (t.beginDestruction c target).1 = true) :
    ((t.beginDestruction c target).2.abortDestruction c).find? k =
      if k = c.key then none else t.find? k := by
  obtain ⟨-, -, htarget⟩ := (beginDestruction_fst t c target).1 hb
  have hd : target.isDestroyed = true := by rcases htarget with rfl | rfl <;> rfl
  rw [beginDestruction_of_fst t c hb]
  unfold abortDestruction
  rw [find?_put, if_pos rfl]
  simp only [hd, ↓reduceIte, find?_erase, find?_put]
  split <;> rfl

/-- How a destruction of `c` towards `target` may leave a tracker: untouched, refused, or begun
and then finished or undone. -/
inductive Destroys (t : Tracker) (c : Resource) (target : Lifecycle) : Tracker → Prop
  | untouched : Destroys t c target t
  | refused : (t.beginDestruction c target).1 = false →
      Destroys t c target (t.beginDestruction c target).2
  | finished : (t.beginDestruction c target).1 = true →
      Destroys t c target ((t.beginDestruction c target).2.finishDestruction c)
  | undone : (t.beginDestruction c target).1 = true →
      Destroys t c target ((t.beginDestruction c target).2.abortDestruction c)

namespace Destroys

variable {t c k} {target : Lifecycle} {t' : Tracker}

theorem queue (h : Destroys t c target t') : t'.queue = t.queue := by
  cases h with
  | untouched => rfl
  | refused => exact queue_beginDestruction_eq t c target
  | finished => rw [queue_finishDestruction_eq, queue_beginDestruction_eq]
  | undone => rw [queue_abortDestruction_eq, queue_beginDestruction_eq]

theorem find? (h : Destroys t c target t') (hk : t.find? k = none) : t'.find? k = none := by
  cases h with
  | untouched => exact hk
  | refused hb => exact find?_of_not_begin t c k hb hk
  | finished hb => rw [find?_finish_of_begin t c k hb]; split <;> simp_all
  | undone hb => rw [find?_abort_of_begin t c k hb]; split <;> simp_all

end Destroys

/-- A property of the tracker that every destruction keeps. -/
def DestroyStable (P : Tracker → Prop) : Prop :=
  ∀ t c target t', Destroys t c target t' → P t → P t'

/-! ## Releasing a registration -/

theorem claimants_freeze (x : Resource) : (t.freeze c).2.claimants x = t.claimants x := by
  unfold claimants
  rw [record_freeze]
  split
  · next h => rw [h.1]
  · rfl

theorem claimants_foldl_freeze (l : List (Resource × Nat)) (x : Resource) :
    (l.foldl (fun t y => (t.freeze y.1).2) t).claimants x = t.claimants x := by
  induction l generalizing t with
  | nil => rfl
  | cons y l ih => rw [List.foldl_cons, ih, claimants_freeze]

theorem record_release : (((t.increment c true).2.freeze c).2.decrement c).2.record k =
    if k = c.key then ⟨(t.record c.key).count, .frozen⟩ else t.record k := by
  rw [record_decrement, record_freeze, record_freeze, record_increment, record_increment]
  by_cases hk : k = c.key
  · subst hk
    simp
  · simp [hk]

theorem claimants_release (x : Resource) :
    (((t.increment c true).2.freeze c).2.decrement c).2.claimants x = t.claimants x := by
  unfold claimants
  rw [record_release]
  split
  · next h => rw [h]
  · rfl

theorem release_of_unknown (h : t.claimants c = 0) :
    (((t.increment c true).2.freeze c).2.decrement c).2.find? c.key = none ∧
      (((t.increment c true).2.freeze c).2.decrement c).2.queue = (t.enqueue c).queue := by
  have h0 : (t.record c.key).count = 0 := h
  have hinc : (t.increment c true).2 = t.put c.key ⟨1, .writable⟩ := by
    simp [increment, h0]
  have hfrz : ((t.increment c true).2.freeze c).2 =
      (t.put c.key ⟨1, .writable⟩).put c.key ⟨1, .frozen⟩ := by
    simp [hinc, freeze, find?_put, settle, Record.destructable, Lifecycle.isWritable]
  have hdec : (((t.increment c true).2.freeze c).2.decrement c).2 =
      (((t.put c.key ⟨1, .writable⟩).put c.key ⟨1, .frozen⟩).erase c.key).enqueue c := by
    simp [hfrz, decrement, find?_put, settle, Record.destructable]
  rw [hdec]
  constructor
  · unfold enqueue
    split <;> simp [find?, erase, put]
  · simp only [enqueue, erase, put]
    split <;> rfl

end ClaimStore.Tracker
