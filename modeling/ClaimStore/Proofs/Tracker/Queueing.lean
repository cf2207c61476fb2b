import ClaimStore.Proofs.Tracker.Undoing
/-!
# A claim left idle is queued

A claim comes to have no claimants while frozen in one of two ways: its last claimant goes while
it is frozen, or it is frozen with no claimant left. Either way the tracker forgets its record and
offers it to the destruction queue in the same call. `Enqueues t t'` says what that gives from
`t` to `t'`: the queue only grows, under the same bound, and a claim idle in `t'` (its record
the untracked one: no claimants, frozen) was idle in `t`, waits in the queue of `t'`, or met a
full queue.

Every operation of the tracker but draining does so: counting, freezing, and a destruction that
is refused, finished or undone (`Destroys.enqueues`). The lemmas are proved on the total-map
reading, where each operation sets one record and makes at most one offer.
-/

set_option autoImplicit false

namespace ClaimStore.Tracker

open ClaimStore.Claim

namespace Total

/-- A claim of the key waits in the destruction queue. -/
def Queued (m : Total) (k : ClaimKey) : Prop := ∃ c ∈ m.queue, c.key = k

/-- The destruction queue is at its bound. -/
def Full (m : Total) : Prop := m.bound ≤ m.queue.length

/-- From `m` to `m'` the queue only grows, and a claim becomes idle only by being queued or
meeting a full queue. -/
structure Enqueues (m m' : Total) : Prop where
  grows : m.queue <+: m'.queue
  bound : m'.bound = m.bound
  idle : ∀ k, m'.records k = .unknown → m.records k = .unknown ∨ m'.Queued k ∨ m'.Full

namespace Enqueues

variable {m m' m'' : Total}

theorem refl (m : Total) : m.Enqueues m := ⟨List.prefix_refl _, rfl, fun _ h => .inl h⟩

theorem queued (h : m.Enqueues m') {k : ClaimKey} (hk : m.Queued k) : m'.Queued k := by
  obtain ⟨c, hc, rfl⟩ := hk
  exact ⟨c, h.grows.subset hc, rfl⟩

theorem full (h : m.Enqueues m') (hf : m.Full) : m'.Full := by
  unfold Full at hf ⊢
  rw [h.bound]
  exact Nat.le_trans hf h.grows.length_le

theorem trans (h : m.Enqueues m') (h' : m'.Enqueues m'') : m.Enqueues m'' where
  grows := h.grows.trans h'.grows
  bound := h'.bound.trans h.bound
  idle k hk := by
    rcases h'.idle k hk with hk' | hq | hf
    · rcases h.idle k hk' with hk'' | hq | hf
      · exact .inl hk''
      · exact .inr (.inl (h'.queued hq))
      · exact .inr (.inr (h'.full hf))
    · exact .inr (.inl hq)
    · exact .inr (.inr hf)

end Enqueues

variable (m : Total) (c : Resource)

theorem queued_offer : (m.offer c).Queued c.key ∨ (m.offer c).Full := by
  unfold offer
  split
  · exact .inl ⟨c, List.mem_append_right _ (List.mem_singleton_self c), rfl⟩
  · next h => exact .inr (Nat.le_of_not_lt h)

theorem enqueues_offer : m.Enqueues (m.offer c) := by
  unfold offer
  split
  · exact ⟨List.prefix_append _ _, rfl, fun _ h => .inl h⟩
  · exact .refl m

theorem enqueues_set {k : ClaimKey} {r : Record} (hi : r = .unknown → m.records k = .unknown) :
    m.Enqueues (m.set k r) where
  grows := List.prefix_refl _
  bound := rfl
  idle k' hk' := by
    simp only [set] at hk'
    split at hk'
    · next h => subst h; exact .inl (hi hk')
    · exact .inl hk'

theorem enqueues_set_offer (r : Record) : m.Enqueues ((m.set c.key r).offer c) where
  grows := (enqueues_offer (m.set c.key r) c).grows
  bound := (enqueues_offer (m.set c.key r) c).bound
  idle k hk := by
    by_cases hkc : k = c.key
    · subst hkc
      exact .inr (queued_offer _ c)
    · rw [records_offer] at hk
      simp only [set, if_neg hkc] at hk
      exact .inl hk

theorem enqueues_increment (fresh : Bool) : m.Enqueues (m.increment c fresh).2 :=
  m.enqueues_set fun h => absurd (congrArg Record.count h) (Nat.succ_ne_zero _)

theorem enqueues_decrement : m.Enqueues (m.decrement c).2 := by
  unfold decrement
  dsimp only
  split
  · exact .refl m
  · next h0 =>
    split
    · exact m.enqueues_set_offer c _
    · next h1 =>
      refine m.enqueues_set fun h => absurd ⟨?_, ?_⟩ h1
      · have := congrArg Record.count h
        simp only [Record.unknown] at this
        omega
      · exact congrArg Record.state h

theorem enqueues_freeze : m.Enqueues (m.freeze c).2 := by
  unfold freeze
  dsimp only
  split
  · split
    · exact m.enqueues_set_offer c _
    · next h0 =>
      exact m.enqueues_set fun h => absurd (congrArg Record.count h) h0
  · exact .refl m

end Total

/-! ## Trackers, through their total-map reading -/

/-- A claim of the key waits in the destruction queue. -/
def Queued (t : Tracker) (k : ClaimKey) : Prop := t.total.Queued k

/-- The destruction queue is at its bound. -/
def Full (t : Tracker) : Prop := t.total.Full

/-- From `t` to `t'` the queue only grows, and a claim becomes idle only by being queued or
meeting a full queue. -/
def Enqueues (t t' : Tracker) : Prop := t.total.Enqueues t'.total

namespace Enqueues

variable {t t' t'' : Tracker}

theorem refl (t : Tracker) : t.Enqueues t := Total.Enqueues.refl _

theorem trans (h : t.Enqueues t') (h' : t'.Enqueues t'') : t.Enqueues t'' :=
  Total.Enqueues.trans h h'

theorem queued (h : t.Enqueues t') {k : ClaimKey} (hk : t.Queued k) : t'.Queued k :=
  Total.Enqueues.queued h hk

theorem full (h : t.Enqueues t') (hf : t.Full) : t'.Full := Total.Enqueues.full h hf

theorem idle (h : t.Enqueues t') {k : ClaimKey} (hk : t'.record k = .unknown) :
    t.record k = .unknown ∨ t'.Queued k ∨ t'.Full :=
  Total.Enqueues.idle h k hk

theorem of_eq (hrec : ∀ k, t'.record k = t.record k) (hq : t'.queue = t.queue) :
    t.Enqueues t' := by
  have h : t'.total = t.total := by
    unfold total
    rw [funext hrec, hq]
  unfold Enqueues
  rw [h]
  exact .refl _

end Enqueues

variable (t : Tracker) (c : Resource)

theorem enqueues_increment (fresh : Bool) : t.Enqueues (t.increment c fresh).2 := by
  have h := congrArg Prod.snd (increment_total t c fresh)
  unfold Enqueues
  rw [show (t.increment c fresh).2.total = (t.total.increment c fresh).2 from h]
  exact t.total.enqueues_increment c fresh

theorem enqueues_decrement : t.Enqueues (t.decrement c).2 := by
  have h := congrArg Prod.snd (decrement_total t c)
  unfold Enqueues
  rw [show (t.decrement c).2.total = (t.total.decrement c).2 from h]
  exact t.total.enqueues_decrement c

theorem enqueues_freeze : t.Enqueues (t.freeze c).2 := by
  have h := congrArg Prod.snd (freeze_total t c)
  unfold Enqueues
  rw [show (t.freeze c).2.total = (t.total.freeze c).2 from h]
  exact t.total.enqueues_freeze c

theorem Destroys.enqueues {target : Lifecycle} {t' : Tracker} (h : Destroys t c target t') :
    t.Enqueues t' := by
  refine Enqueues.of_eq (fun k => ?_) h.queue
  cases h with
  | untouched => rfl
  | refused hb => exact record_of_not_begin t c k hb
  | finished hb => exact record_finish_of_begin t c k hb
  | undone hb => exact record_abort_of_begin t c k hb

end ClaimStore.Tracker
