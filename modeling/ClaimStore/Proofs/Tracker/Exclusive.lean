import ClaimStore.Proofs.Tracker.Records
/-!
# Destruction is exclusive

`beginDestruction` is the gate in front of a claim's file: it lets through a frozen claim
without claimants, and moves it to archived or removed on the way. A tracker's calls are atomic,
so any interleaving of callers is one sequence of calls, and the question is what a sequence
of calls can do to a claim that has been let through.

A claim that has been let through stays archived or removed under every call but four:
finishing or aborting its destruction, a purge, and registering it as a new claim
(`Call.releases`). Adding or dropping claimants, freezing it, offering it for destruction and
trying to begin its destruction again leave it where it is, and `beginDestruction` refuses a
claim that is archived or removed. Main statement: `begin_exclusive`.
-/

set_option autoImplicit false

namespace ClaimStore.Tracker

open ClaimStore.Claim

/-- Whether a call can make a claim frozen again once its destruction has begun: finishing or
aborting its destruction, a purge, or registering the claim as new. -/
def Call.releases (c : Resource) : Call → Bool
  | .finish c' | .abort c' | .increment c' true => c'.key == c.key
  | .purge => true
  | _ => false

/-- The tracker after calls made one after another. -/
def runCalls (t : Tracker) (ops : List Call) : Tracker := ops.foldl (fun t op => (t.call op).2) t

@[simp] theorem runCalls_nil (t : Tracker) : t.runCalls [] = t := rfl

@[simp] theorem runCalls_cons (t : Tracker) (op : Call) (ops : List Call) :
    t.runCalls (op :: ops) = (t.call op).2.runCalls ops := rfl

theorem record_markDestructable (t : Tracker) (c : Resource) (k : ClaimKey) :
    (t.markDestructable c).record k = t.record k := by
  have h := congrArg (fun m => m.records k) (markDestructable_total t c)
  simp only [total_records, Total.mark] at h
  rw [h]
  by_cases hd : (t.record c.key).count = 0 ∧ (t.record c.key).state = .frozen <;> simp [hd]

/-- The claims whose destruction has begun. -/
def Destroying (t : Tracker) (c : Resource) : Prop := (t.record c.key).state.isDestroyed = true

theorem destroying_iff (t : Tracker) (c : Resource) :
    t.Destroying c ↔ (t.record c.key).state = .archived ∨ (t.record c.key).state = .removed := by
  unfold Destroying
  cases (t.record c.key).state <;> simp [Lifecycle.isDestroyed]

variable {t : Tracker} {c : Resource}

theorem begin_of_destroying (h : t.Destroying c) {c' : Resource} (hc' : c'.key = c.key)
    (target : Lifecycle) : (t.beginDestruction c' target).1 = false := by
  have hne : (t.record c'.key).state ≠ .frozen := by
    rw [hc']
    rcases (destroying_iff t c).1 h with hs | hs <;> simp [hs]
  rw [← Bool.not_eq_true, beginDestruction_fst]
  exact fun ⟨_, hs, _⟩ => hne hs

theorem destroying_of_begin {target : Lifecycle} (hb : (t.beginDestruction c target).1 = true) :
    (t.beginDestruction c target).2.Destroying c := by
  obtain ⟨-, -, htarget⟩ := (beginDestruction_fst t c target).1 hb
  rw [destroying_iff, record_beginDestruction]
  simpa [hb] using htarget

/-- One call that does not release a claim being destroyed leaves it being destroyed. -/
theorem destroying_call (h : t.Destroying c) {op : Call} (hop : op.releases c = false) :
    (t.call op).2.Destroying c := by
  have hs := (destroying_iff t c).1 h
  rw [destroying_iff]
  cases op with
  | claimants c' | state c' | inUse c' => exact hs
  | increment c' fresh =>
    simp only [call, Prod.map, id, record_increment]
    by_cases hk : c.key = c'.key
    · -- only a new claim's registration changes the state, and that releases the claim
      cases fresh
      · simpa [hk] using hs
      · simp [Call.releases, hk] at hop
    · simpa [hk] using hs
  | decrement c' =>
    simp only [call, Prod.map, id, record_decrement]
    by_cases hk : c.key = c'.key
    · rw [← hk]
      split <;> simpa using hs
    · simpa [hk] using hs
  | freeze c' =>
    simp only [call, Prod.map, id, record_freeze]
    -- only a writable claim freezes
    have hw : (t.record c.key).state ≠ .writable := by rcases hs with hs | hs <;> simp [hs]
    by_cases hk : c.key = c'.key
    · rw [← hk]
      simpa [hw] using hs
    · simpa [hk] using hs
  | mark c' =>
    simpa only [call, record_markDestructable] using hs
  | begin c' target =>
    simp only [call, Prod.map, id, record_beginDestruction]
    by_cases hk : c.key = c'.key
    · simpa [begin_of_destroying h hk.symm target] using hs
    · simpa [hk] using hs
  | finish c' =>
    have hk : c.key ≠ c'.key := fun hk => by simp [Call.releases, hk] at hop
    simpa [call, record_finishDestruction, hk] using hs
  | abort c' =>
    have hk : c.key ≠ c'.key := fun hk => by simp [Call.releases, hk] at hop
    simpa [call, record_abortDestruction, hk] using hs
  | drain max =>
    simpa only [call, Prod.map, id, record_drainDestructable] using hs
  | purge => simp [Call.releases] at hop

theorem destroying_runCalls (h : t.Destroying c) {ops : List Call}
    (hops : ∀ op ∈ ops, op.releases c = false) : (t.runCalls ops).Destroying c := by
  induction ops generalizing t with
  | nil => exact h
  | cons op ops ih =>
    rw [runCalls_cons]
    exact ih (destroying_call h (hops op List.mem_cons_self))
      fun op' hop' => hops op' (List.mem_cons_of_mem op hop')

/-- `beginDestruction` is an exclusive check-and-set. It lets a claim through only when the
claim has no claimants and is frozen, towards archived or removed; and once it has, every later
`beginDestruction` of the same claim refuses until a call that releases it (finishing or
aborting the destruction, a purge, or registering the claim as new). -/
theorem begin_exclusive {target : Lifecycle} (hb : (t.beginDestruction c target).1 = true)
    (ops : List Call) (hops : ∀ op ∈ ops, op.releases c = false) (c' : Resource)
    (hc' : c'.key = c.key) (target' : Lifecycle) :
    (t.claimants c = 0 ∧ t.state c = .frozen ∧ (target = .archived ∨ target = .removed)) ∧
      (((t.beginDestruction c target).2.runCalls ops).beginDestruction c' target').1 = false := by
  refine ⟨(beginDestruction_fst t c target).1 hb, ?_⟩
  exact begin_of_destroying (destroying_runCalls (destroying_of_begin hb) hops) hc' target'

/-- A fresh claim let through towards archiving: dropping and adding claimants, freezing it,
offering it for destruction and trying again towards removal do not let it through again. -/
theorem begin_exclusive_after_calls :
    ((Tracker.empty 8).beginDestruction ⟨"default", "1", "1-1", false⟩ .archived).1 = true ∧
      (∀ op ∈ [Call.decrement ⟨"default", "1", "1-1", false⟩,
          .increment ⟨"default", "1", "1-1", false⟩ false, .freeze ⟨"default", "1", "1-1", false⟩,
          .mark ⟨"default", "1", "1-1", false⟩, .begin ⟨"default", "1", "1-1", true⟩ .removed,
          .drain 10], op.releases ⟨"default", "1", "1-1", false⟩ = false) ∧
      (((Tracker.empty 8).claimants ⟨"default", "1", "1-1", false⟩ = 0 ∧
          (Tracker.empty 8).state ⟨"default", "1", "1-1", false⟩ = .frozen ∧
          (Lifecycle.archived = .archived ∨ Lifecycle.archived = .removed)) ∧
        ((((Tracker.empty 8).beginDestruction ⟨"default", "1", "1-1", false⟩ .archived).2.runCalls
          [.decrement ⟨"default", "1", "1-1", false⟩,
            .increment ⟨"default", "1", "1-1", false⟩ false, .freeze ⟨"default", "1", "1-1", false⟩,
            .mark ⟨"default", "1", "1-1", false⟩, .begin ⟨"default", "1", "1-1", true⟩ .removed,
            .drain 10]).beginDestruction ⟨"default", "1", "1-1", true⟩ .removed).1 = false) :=
  ⟨by decide, by decide, begin_exclusive (by decide) _ (by decide) ⟨"default", "1", "1-1", true⟩
    rfl .removed⟩

end ClaimStore.Tracker
