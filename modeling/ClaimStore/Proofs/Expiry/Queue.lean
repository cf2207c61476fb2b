import ClaimStore.Proofs.Expiry.Eviction
/-!
# The queue of archived files stays sorted and fresh

A container's queue of archived files is taken from the front by the queue phase of a pass, and
refilled by a pass that scans, from the files that have not expired sorted by age; a purge
empties it. So, on real disks (sound and keyed: one node per place), the queue stays oldest
first, names each path once and never holds more than its capacity (`Container.QueueKept`).
After a pass that answers a result and was not skipped, no queued file has expired and the age
the pass reports, and records, is that of the front of the queue (`Container.Fresh`) - except
that a scanning pass takes an age of 2^64 - 1 for "no file at all" and reports its own time in
its place.

Main statement: `archived_queue_stays_sorted`.
-/

set_option autoImplicit false

namespace ClaimStore

open ClaimStore.FileSystem ClaimStore.Path

namespace Container

/-- The queue of archived files is well kept: oldest first, one entry per path, and bounded by
the queue's capacity. -/
structure QueueKept (c : Container) : Prop where
  sorted : c.archived.items.Pairwise fun a b => a.lastModified ≤ b.lastModified
  distinct : (c.archived.items.map (·.path)).Nodup
  bound : c.archived.bound = archiveQueueCapacity

/-- A container after a pass that answered `r`, at `now` with `threshold` as the age below which
files have expired: nothing queued has expired, and the age recorded is the one reported, the
front's - or the pass's time when the front's age is the largest 64-bit value. -/
structure Fresh (c : Container) (threshold now : Nat) (r : Expiry) : Prop where
  unexpired : ∀ e ∈ c.archived.items, threshold ≤ e.lastModified
  recorded : c.oldest = r.oldest
  front : ∀ h, c.archived.peek = some h →
    r.oldest = h.lastModified ∨ (h.lastModified = noAge ∧ r.oldest = now)

variable {c c' : Container}

theorem QueueKept.length_le (h : c.QueueKept) : c.archived.items.length ≤ archiveQueueCapacity :=
  h.bound ▸ c.archived.fits

theorem QueueKept.of_suffix (h : c.QueueKept) (hs : c'.archived.items <:+ c.archived.items)
    (hb : c'.archived.bound = c.archived.bound) : c'.QueueKept :=
  ⟨h.sorted.sublist hs.sublist, h.distinct.sublist (hs.sublist.map _), hb.trans h.bound⟩

theorem queueKept_create (name root : String) (sections : Nat) (gate : Gate)
    (reclaimCapacity : Nat) (minUsable : Option Nat) :
    (create name root sections gate reclaimCapacity minUsable).QueueKept :=
  ⟨.nil, .nil, rfl⟩

theorem QueueKept.emptied (h : c.QueueKept) : c.emptied.QueueKept := ⟨.nil, .nil, h.bound⟩

end Container

namespace Sweep

theorem fromQueue_suffix (threshold toFree now fuel : Nat) (r : Expiry) (s : Sweep) :
    (fromQueue threshold toFree now fuel r s).2.2.container.archived.items <:+
      s.container.archived.items :=
  fromQueue_rel (fun s s' => s'.container.archived.items <:+ s.container.archived.items)
    (fun _ => List.suffix_refl _) (fun h h' => h'.trans h)
    (fun s e => by rw [delete_archived]; exact List.tail_suffix _)
    (fun _ _ _ => List.suffix_refl _) threshold toFree now fuel r s

theorem front_suffix {c : Prop} [Decidable c] {r0 r1 : Expiry} {s0 s1 : Sweep}
    {A : Expiry × Sweep} (h : (if c then A else (r0, s0)) = (r1, s1))
    (hA : A.2.container.archived = s0.container.archived.poll.2) :
    s1.container.archived.items <:+ s0.container.archived.items := by
  rcases front_cases h with ⟨-, rfl⟩ | ⟨-, -, rfl⟩
  · rw [hA]
    exact List.tail_suffix _
  · exact List.suffix_refl _

/-- A queue phase that ends the pass, on a queue oldest first, leaves no expired file queued,
and reports and records the age of the front, or the pass's time when the queue ran out. -/
theorem fromQueue_some (threshold toFree now fuel : Nat) (r : Expiry) (s : Sweep)
    (hs : s.container.archived.items.Pairwise fun a b => a.lastModified ≤ b.lastModified)
    {r' r'' : Expiry} {s' : Sweep}
    (h : fromQueue threshold toFree now fuel r s = (some r', r'', s')) :
    (∀ e ∈ s'.container.archived.items, threshold ≤ e.lastModified) ∧
      s'.container.oldest = r'.oldest ∧
      r'.oldest = (s'.container.archived.peek.map (·.lastModified)).getD now := by
  fun_induction fromQueue threshold toFree now fuel r s
  case case1 => simp at h
  case case2 => simp at h
  case case3 fuel r0 s0 head hpeek expired r1 s1 hf hge next hnext hexp ih =>
    exact ih (hs.sublist (front_suffix hf (delete_archived _ head)).sublist) h
  case case4 fuel r0 s0 head hpeek expired r1 s1 hf hge next hnext hexp r2 s2 hsettle =>
    obtain ⟨rfl, rfl⟩ := Prod.mk.inj hsettle
    obtain ⟨rfl, -, rfl⟩ : _ = r' ∧ _ = r'' ∧ _ = s' := by simpa using h
    obtain ⟨rest, hitems⟩ := List.head?_eq_some_iff.1 hnext
    have hsorted := hs.sublist (front_suffix hf (delete_archived _ head)).sublist
    rw [hitems] at hsorted
    refine ⟨fun e he => ?_, rfl, by simp [hnext]⟩
    simp only [hitems, List.mem_cons] at he
    rcases he with rfl | he
    · exact Nat.le_of_not_lt (by simpa using hexp)
    · exact Nat.le_trans (Nat.le_of_not_lt (by simpa using hexp))
        (List.rel_of_pairwise_cons hsorted he)
  case case5 fuel r0 s0 head hpeek expired r1 s1 hf hge hnone r2 s2 hsettle =>
    obtain ⟨rfl, rfl⟩ := Prod.mk.inj hsettle
    obtain ⟨rfl, -, rfl⟩ : _ = r' ∧ _ = r'' ∧ _ = s' := by simpa using h
    have hempty : s1.container.archived.items = [] := by simpa [Fifo.peek] using hnone
    exact ⟨by simp [hempty], rfl, by simp [hnone]⟩
  case case6 fuel r0 s0 head hpeek expired r1 s1 hf hlt ih =>
    exact ih (hs.sublist (front_suffix hf (delete_archived _ head)).sublist) h

theorem sweepExpired_archived (threshold : Nat) (overBudget : Bool) (es : List Archive.Entry)
    (r : Expiry) (s : Sweep) (kept : List Archive.Entry) (oldest : Nat) :
    (sweepExpired threshold overBudget es (r, s, kept, oldest)).2.1.container.archived =
      s.container.archived := by
  obtain ⟨g, hg⟩ := deleteAll_container s (es.filter (·.lastModified < threshold))
  rw [sweepExpired_sweep, hg]

theorem sweepSpace_archived (probe : Probe) (toFree minUsable : Nat)
    (l : List (Nat × Archive.Entry)) (acc : Expiry × Sweep × Nat) :
    (sweepSpace probe toFree minUsable l acc).2.2.1.container.archived =
      acc.2.1.container.archived := by
  fun_induction sweepSpace probe toFree minUsable l acc
  case case1 => rfl
  case case2 => rfl
  case case3 _ e _ _ s _ _ _ _ hdel _ _ _ _ => rw [← delete_archived s e, hdel]
  case case4 _ e _ _ s _ _ _ _ hdel _ _ _ _ _ => rw [← delete_archived s e, hdel]
  case case5 _ e _ _ s _ _ _ _ hdel _ _ _ _ _ ih => rw [ih, ← delete_archived s e, hdel]
  case case6 _ e _ _ s _ _ _ _ hdel _ _ ih => rw [ih, ← delete_archived s e, hdel]

/-- What a scanning pass queues: of the files it kept - those that have not expired, when space
was short, and none otherwise - the ones left after deleting for space, oldest first, as many
as the queue holds. They are sorted, name distinct paths, and have not expired. -/
theorem rescan_queue {s : Sweep} {root : Place} (hroot : place? s.container.root = some root)
    (hs : s.disk.Sound) (hk : s.disk.Keyed) (threshold : Nat) (overBudget : Bool) (used : Nat) :
    let Q := (((if overBudget then s.scan.filter (fun e => threshold ≤ e.lastModified) else []).mergeSort
      fun a b => a.lastModified ≤ b.lastModified).drop used).take archiveQueueCapacity
    Q.Pairwise (fun a b => a.lastModified ≤ b.lastModified) ∧ (Q.map (·.path)).Nodup ∧
      ∀ e ∈ Q, threshold ≤ e.lastModified := by
  intro Q
  set kept := if overBudget then s.scan.filter (fun e => threshold ≤ e.lastModified) else []
    with hkept
  have hsub : Q.Sublist (kept.mergeSort fun a b => a.lastModified ≤ b.lastModified) :=
    (List.take_sublist _ _).trans (List.drop_sublist _ _)
  have hperm := List.mergeSort_perm kept fun a b => decide (a.lastModified ≤ b.lastModified)
  have hscan : kept.Sublist s.scan := by
    cases overBudget
    · exact List.nil_sublist _
    · exact List.filter_sublist
  have hd : s.DistinctFiles Q :=
    (((scan_distinct hroot hs hk).sublist hscan).perm hperm).sublist hsub
  refine ⟨?_, List.pairwise_map.2 (hd.1.imp fun hne heq => hne (congrArg place? heq)), ?_⟩
  · have hsorted : (kept.mergeSort fun a b => a.lastModified ≤ b.lastModified).Pairwise
        fun a b => decide (a.lastModified ≤ b.lastModified) = true :=
      List.pairwise_mergeSort
        (fun a b c hab hbc => by simp only [decide_eq_true_eq] at hab hbc ⊢; omega)
        (fun a b => by simp only [Bool.or_eq_true, decide_eq_true_eq]; omega) kept
    exact (hsorted.sublist hsub).imp fun h => by simpa using h
  · intro e he
    have hmem : e ∈ kept := hperm.subset (hsub.subset he)
    cases overBudget
    · simp [hkept] at hmem
    · simpa using (List.mem_filter.1 hmem).2

end Sweep

theorem Fifo.foldl_offer_bound {α β : Type} (f : Fifo α × β → α → Fifo α × β)
    (hf : ∀ q b x, (f (q, b) x).1 = (q.offer x).getD q) (L : List α) (q : Fifo α) (b : β) :
    (L.foldl f (q, b)).1.bound = q.bound := by
  induction L generalizing q b with
  | nil => rfl
  | cons x L ih => rw [List.foldl_cons, ← Prod.eta (f (q, b) x), ih, hf, Fifo.offer_getD_bound]

namespace Container

variable {c : Container} {d : Disk} {root : Place}

/-- An expiration pass on a real disk keeps the queue well kept; when it answers a result and
was not skipped, the queue it leaves is fresh. -/
theorem QueueKept.expire (hc : c.QueueKept) (hroot : place? c.root = some root) (hd : d.Sound)
    (hk : d.Keyed) (probe : Probe) (now retention : Nat) :
    (c.expire d probe now retention).2.1.QueueKept ∧
      ∀ r, (c.expire d probe now retention).1 = .ok r → r.skipped = false →
        (c.expire d probe now retention).2.1.Fresh (now - retention) now r := by
  fun_cases Container.expire c d probe now retention
  case case1 =>
    refine ⟨hc, fun r h hr => ?_⟩
    obtain rfl : _ = r := by simpa using h
    simp at hr
  case case2 => exact ⟨hc, fun r h => by simp at h⟩
  case case3 m hm s0 threshold U hu toFree r1 r1' s1 hq =>
    have hsuf := Sweep.fromQueue_suffix threshold toFree now (c.archived.size + 1) {} s0
    have hbound := (Sweep.fromQueue_keyed threshold toFree now (c.archived.size + 1) {} s0).1
    rw [hq] at hsuf hbound
    refine ⟨hc.of_suffix hsuf hbound, fun r h _ => ?_⟩
    obtain rfl : r1 = r := by simpa using h
    obtain ⟨hfresh, hrec, hold⟩ := Sweep.fromQueue_some threshold toFree now _ {} s0 hc.sorted hq
    exact ⟨hfresh, hrec, fun e he => .inl (by simp [hold, he])⟩
  case case4 m hm s0 threshold U hu toFree r1 s1 hq ob r2 s2 kept oldest hexp C r3 s3 used err
      hspace =>
    -- the scan failed to read usable space: the queue was emptied by the queue phase
    obtain ⟨hempty, hbound, -⟩ := rescan_start hroot hd hk hq
    have h1 := Sweep.sweepSpace_archived probe toFree m
      ((C.zipIdx).map fun x => (x.2, x.1)) (r2, s2, 0)
    have h2 := Sweep.sweepExpired_archived threshold (decide ob) s1.scan r1 s1 [] noAge
    rw [hspace] at h1
    rw [hexp] at h2
    refine ⟨hc.of_suffix (by rw [h1, h2, hempty]; exact List.nil_suffix)
      (by rw [h1, h2, hbound]), fun r h => by simp at h⟩
  case case5 m hm s0 threshold U hu toFree r1 s1 hq ob r2 s2 kept oldest hexp C r3 s3 used
      remaining oldest' q n hfold s4 r s hsettle hspace =>
    obtain ⟨hempty, hbound, hroot1, -, hsound1, hkeyed1⟩ := rescan_start hroot hd hk hq
    have h1 := Sweep.sweepSpace_archived probe toFree m
      ((C.zipIdx).map fun x => (x.2, x.1)) (r2, s2, 0)
    have h2 := Sweep.sweepExpired_archived threshold (decide ob) s1.scan r1 s1 [] noAge
    have hkept := Sweep.sweepExpired_kept threshold (decide ob) s1.scan r1 s1 [] noAge
    have hitems : (q, n).1.items = s3.container.archived.items ++
        (remaining.take archiveQueueCapacity).take
          (s3.container.archived.bound - s3.container.archived.items.length) := by
      rw [← hfold]
      exact Fifo.foldl_offer _ (fun q b x => by dsimp only; cases q.offer x <;> rfl) _ _ _
    have hqbound : (q, n).1.bound = s3.container.archived.bound := by
      rw [← hfold]
      exact Fifo.foldl_offer_bound _ (fun q b x => by dsimp only; cases q.offer x <;> rfl) _ _ _
    rw [hspace] at h1
    rw [hexp] at h2 hkept
    rw [h1, h2, hempty, hbound, hc.bound, List.nil_append, List.length_nil, Nat.sub_zero,
      List.take_take, Nat.min_self] at hitems
    rw [h1, h2, hbound, hc.bound] at hqbound
    obtain ⟨rfl, rfl⟩ := Prod.mk.inj hsettle
    have hQ := Sweep.rescan_queue hroot1 hsound1 hkeyed1 threshold (decide ob) used
    simp only [List.nil_append] at hkept
    rw [← hkept] at hQ
    obtain ⟨hsorted, hdistinct, hunexpired⟩ := hQ
    refine ⟨⟨?_, ?_, hqbound⟩, fun r' h _ => ?_⟩
    · show q.items.Pairwise _
      rw [hitems]
      exact hsorted
    · show (q.items.map _).Nodup
      rw [hitems]
      exact hdistinct
    obtain rfl := Except.ok.inj h
    refine ⟨fun e he => hunexpired e (hitems ▸ he), rfl, fun h hh => ?_⟩
    -- the front is the first file kept after deleting for space, so space was short
    have hfront : remaining.head? = some h := by
      have : q.items.head? = some h := hh
      rwa [hitems, List.head?_take, if_neg (by decide)] at this
    have hob : ob := by
      by_contra hob
      simp [remaining, C, hkept, hob] at hfront
    have hold : oldest' = h.lastModified := by simp [oldest', hob, hfront]
    show (if (oldest' == noAge) = true then now else oldest') = h.lastModified ∨
      (h.lastModified = noAge ∧ (if (oldest' == noAge) = true then now else oldest') = now)
    rw [hold]
    by_cases hmax : h.lastModified = noAge <;> simp [hmax]

/-- A scheduled pass is skipped - leaving the queue and the age alone, and answering an error
or a skipped result - or is the pass run now; beside that it only has the gate take a reading. -/
theorem expireScheduled_cases (c : Container) (d : Disk) (probe : Probe) (now retention : Nat) :
    ∃ g, ((c.expireScheduled d probe now retention).2.1 = { c with gate := g } ∧
        ∀ r, (c.expireScheduled d probe now retention).1 = .ok r → r.skipped = true) ∨
      ((c.expireScheduled d probe now retention).1 = (c.expire d probe now retention).1 ∧
        (c.expireScheduled d probe now retention).2.1 =
          { (c.expire d probe now retention).2.1 with gate := g }) := by
  fun_cases Container.expireScheduled c d probe now retention
  case case1 outcome c' d' hpass reading =>
    refine ⟨c'.gate.signalReady reading now, ?_⟩
    split at hpass
    · -- archiving is off
      obtain ⟨rfl, rfl, rfl⟩ : _ = outcome ∧ _ = c' ∧ _ = d' := by simpa using hpass
      exact .inl ⟨rfl, fun r h => by obtain rfl := Except.ok.inj h; rfl⟩
    split at hpass
    · split at hpass
      · -- the reading failed
        obtain ⟨rfl, rfl, rfl⟩ : _ = outcome ∧ _ = c' ∧ _ = d' := by simpa using hpass
        exact .inl ⟨rfl, fun r h => by simp at h⟩
      split at hpass
      · -- the oldest file is young and space suffices
        obtain ⟨rfl, rfl, rfl⟩ : _ = outcome ∧ _ = c' ∧ _ = d' := by simpa using hpass
        exact .inl ⟨rfl, fun r h => by obtain rfl := Except.ok.inj h; rfl⟩
      · exact .inr (by rw [hpass]; exact ⟨rfl, rfl⟩)
    · exact .inr (by rw [hpass]; exact ⟨rfl, rfl⟩)

theorem QueueKept.gate (h : c.QueueKept) (g : Gate) : { c with gate := g }.QueueKept :=
  ⟨h.sorted, h.distinct, h.bound⟩

theorem Fresh.gate {threshold now : Nat} {r : Expiry} (h : c.Fresh threshold now r) (g : Gate) :
    { c with gate := g }.Fresh threshold now r :=
  ⟨h.unexpired, h.recorded, h.front⟩

theorem QueueKept.expireScheduled (hc : c.QueueKept) (hroot : place? c.root = some root)
    (hd : d.Sound) (hk : d.Keyed) (probe : Probe) (now retention : Nat) :
    (c.expireScheduled d probe now retention).2.1.QueueKept ∧
      ∀ r, (c.expireScheduled d probe now retention).1 = .ok r → r.skipped = false →
        (c.expireScheduled d probe now retention).2.1.Fresh (now - retention) now r := by
  obtain ⟨g, ⟨hc', hskip⟩ | ⟨hout, hc'⟩⟩ := expireScheduled_cases c d probe now retention
  · rw [hc']
    exact ⟨hc.gate g, fun r h hr => absurd (hskip r h) (by simp [hr])⟩
  · obtain ⟨hkept, hfresh⟩ := hc.expire hroot hd hk probe now retention
    rw [hc', hout]
    exact ⟨hkept.gate g, fun r h hr => (hfresh r h hr).gate g⟩

theorem root_expireScheduled (c : Container) (d : Disk) (probe : Probe) (now retention : Nat) :
    (c.expireScheduled d probe now retention).2.1.root = c.root := by
  obtain ⟨g, ⟨hc', -⟩ | ⟨-, hc'⟩⟩ := expireScheduled_cases c d probe now retention
  · rw [hc']
  · rw [hc']
    exact (expire_deletes c d probe now retention).root

end Container

/-! ## Runs of passes -/

/-- What a container goes through that touches its queue of archived files: an expiration pass,
run now or as scheduled, at some time and over whatever the disk then holds, or a purge. -/
inductive QueuePass where
  | expire (scheduled : Bool) (d : Disk) (probe : Probe) (now retention : Nat)
  | purge

namespace QueuePass

/-- The outcome of a pass (none for a purge), and the container after it. -/
def run (c : Container) : QueuePass → Option (IoResult Expiry) × Container
  | .expire false d probe now retention =>
    (some (c.expire d probe now retention).1, (c.expire d probe now retention).2.1)
  | .expire true d probe now retention =>
    (some (c.expireScheduled d probe now retention).1, (c.expireScheduled d probe now retention).2.1)
  | .purge => (none, c.emptied)

/-- A pass runs over a real disk: sound, with one node per place. -/
def OnRealDisk : QueuePass → Prop
  | .expire _ d _ _ _ => d.Sound ∧ d.Keyed
  | .purge => True

/-- The container after passes one after another. -/
def runAll (c : Container) (ps : List QueuePass) : Container := ps.foldl (fun c p => (p.run c).2) c

variable {c : Container} {root : Place}

theorem run_kept (hc : c.QueueKept) (hroot : place? c.root = some root) (p : QueuePass)
    (hp : p.OnRealDisk) : (p.run c).2.QueueKept ∧ (p.run c).2.root = c.root := by
  cases p with
  | expire scheduled d probe now retention =>
    cases scheduled
    · exact ⟨(hc.expire hroot hp.1 hp.2 probe now retention).1,
        (Container.expire_deletes c d probe now retention).root⟩
    · exact ⟨(hc.expireScheduled hroot hp.1 hp.2 probe now retention).1,
        Container.root_expireScheduled c d probe now retention⟩
  | purge => exact ⟨hc.emptied, rfl⟩

theorem run_fresh (hc : c.QueueKept) (hroot : place? c.root = some root) (scheduled : Bool)
    {d : Disk} (hd : d.Sound) (hk : d.Keyed) (probe : Probe) (now retention : Nat) {r : Expiry}
    (h : ((QueuePass.expire scheduled d probe now retention).run c).1 = some (.ok r))
    (hr : r.skipped = false) :
    ((QueuePass.expire scheduled d probe now retention).run c).2.Fresh (now - retention) now r := by
  cases scheduled
  · exact (hc.expire hroot hd hk probe now retention).2 r (Option.some.inj h) hr
  · exact (hc.expireScheduled hroot hd hk probe now retention).2 r (Option.some.inj h) hr

theorem runAll_kept (hc : c.QueueKept) (hroot : place? c.root = some root) (ps : List QueuePass)
    (hps : ∀ p ∈ ps, p.OnRealDisk) : (runAll c ps).QueueKept ∧ (runAll c ps).root = c.root := by
  induction ps generalizing c with
  | nil => exact ⟨hc, rfl⟩
  | cons p ps ih =>
    obtain ⟨hc1, hroot1⟩ := run_kept hc hroot p (hps p List.mem_cons_self)
    obtain ⟨hc2, hroot2⟩ :=
      ih hc1 (hroot1 ▸ hroot) fun q hq => hps q (List.mem_cons_of_mem p hq)
    exact ⟨hc2, hroot2.trans hroot1⟩

end QueuePass

/-- The queue of archived files stays sorted and fresh. Over any run of expiration passes, run
now or as scheduled over any real disk with any probe, and purges, from a container whose queue
is well kept (a new one's is), the queue stays oldest first, names each path once and holds at
most its capacity. After every pass that answers a result and was not skipped, no queued file
has expired at that pass's threshold, and the age the pass reports, which the container
records, is the front's - unless the front's age is 2^64 - 1, which a scanning pass reports as
its own time. -/
theorem archived_queue_stays_sorted {root : Place} (c : Container)
    (hroot : place? c.root = some root) (hc : c.QueueKept) (ps : List QueuePass)
    (hps : ∀ p ∈ ps, p.OnRealDisk) :
    let c' := QueuePass.runAll c ps
    c'.archived.items.Pairwise (fun a b => a.lastModified ≤ b.lastModified) ∧
      (c'.archived.items.map (·.path)).Nodup ∧ c'.archived.items.length ≤ archiveQueueCapacity ∧
      ∀ (scheduled : Bool) (d : Disk) (probe : Probe) (now retention : Nat) (r : Expiry),
        d.Sound → d.Keyed →
        ((QueuePass.expire scheduled d probe now retention).run c').1 = some (.ok r) →
        r.skipped = false →
        let c'' := ((QueuePass.expire scheduled d probe now retention).run c').2
        (∀ e ∈ c''.archived.items, now - retention ≤ e.lastModified) ∧ c''.oldest = r.oldest ∧
          ∀ h, c''.archived.items.head? = some h →
            r.oldest = h.lastModified ∨ (h.lastModified = noAge ∧ r.oldest = now) := by
  obtain ⟨hkept, hroot'⟩ := QueuePass.runAll_kept hc hroot ps hps
  refine ⟨hkept.sorted, hkept.distinct, hkept.length_le,
    fun scheduled d probe now retention r hd hk h hr => ?_⟩
  have hfresh := QueuePass.run_fresh hkept (hroot'.symm ▸ hroot) scheduled hd hk probe now
    retention h hr
  exact ⟨hfresh.unexpired, hfresh.recorded, hfresh.front⟩

/-- A new container at `c`, with two sections and a minimum of 501 usable bytes. -/
def twoSections : Container :=
  Container.create "c1" "c" 2 (Gate.create "c1" true 1000000 0.52) 16 (some 501)

/-- A new container's queue is well kept, and stays so through a purge. -/
theorem new_container_queue_stays_sorted :
    place? twoSections.root = some ["work", "c"] ∧ twoSections.QueueKept ∧
      ((QueuePass.runAll twoSections [.purge]).archived.items.map (·.path)).Nodup := by
  have hroot : place? twoSections.root = some ["work", "c"] := by decide +kernel
  have hkept : twoSections.QueueKept := Container.queueKept_create _ _ _ _ _ _
  exact ⟨hroot, hkept, (archived_queue_stays_sorted twoSections hroot hkept [.purge]
    (by simp [QueuePass.OnRealDisk])).2.1⟩

/-- An archived file of ten bytes in each section: in the first one whose id gives a trillion
milliseconds, in the second one whose id gives 2^64 - 1. -/
def largestAgeDisk : Disk :=
  ⟨[(["work"], .dir), (["work", "c"], .dir), (["work", "c", "0"], .dir),
    (["work", "c", "0", "archive"], .dir),
    (["work", "c", "0", "archive", "1000000000000-1"], .file 0), (["work", "c", "1"], .dir),
    (["work", "c", "1", "archive"], .dir),
    (["work", "c", "1", "archive", "18446744073709551615-2"], .file 1)],
    #[⟨⟨#[97, 97, 97, 97, 97, 97, 97, 97, 97, 97]⟩, 0⟩,
      ⟨⟨#[98, 98, 98, 98, 98, 98, 98, 98, 98, 98]⟩, 0⟩]⟩

/-- A pass one byte short of space deletes the expired file, which frees enough, and queues the
other, whose age is 2^64 - 1; it then reports its own time as the oldest age, not the front's. -/
theorem expire_reports_time_for_largest_age :
    largestAgeDisk.Sound ∧ largestAgeDisk.Keyed ∧
      (twoSections.expire largestAgeDisk (Probe.Script.probe { usable := .fixed 500 }) 2000000000000 1000).1.toOption.map
        (fun r => (r.oldest, r.skipped)) = some (2000000000000, false) ∧
      (twoSections.expire largestAgeDisk (Probe.Script.probe { usable := .fixed 500 }) 2000000000000 1000).2.1.archived.peek.map
        (·.lastModified) = some noAge :=
  ⟨Disk.Sound.of_nodes (by decide +kernel), by decide +kernel, by decide +kernel, by decide +kernel⟩

end ClaimStore
