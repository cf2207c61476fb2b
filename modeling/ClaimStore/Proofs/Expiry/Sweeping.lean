import ClaimStore.Proofs.Expiry.Entries
import ClaimStore.Proofs.Repo.Expiring
/-!
# What an expiration pass deletes

The phases of a pass, each with what it does to the disk. Deleting an entry unlinks the file
at the entry's place when that place holds a regular file, and does nothing otherwise
(`Sweep.delete_of_file`, `Sweep.delete_of_not_file`). Sweeping the scan's entries deletes the
expired ones (`Sweep.sweepExpired_node`) and keeps the others as candidates when space is
short (`Sweep.sweepExpired_kept`). A queue with nothing in it gives the pass over to the scan
(`Sweep.fromQueue_of_peek`).

Main statement: `Container.expire_deletes_exactly_expired`. A pass that starts with no queued
leftovers and enough usable space deletes exactly the archived files older than the retention.
A pass that starts with leftovers in its queue works through the queue alone and does not
rescan, so it can leave an expired file that was archived after the queue was filled
(`Container.expire_keeps_expired_behind_queue`).
-/

set_option autoImplicit false

namespace ClaimStore

open ClaimStore.FileSystem ClaimStore.Path

namespace FileSystem.Disk

variable {d : Disk} {p : Place}

theorem removeFile_of_file (hs : d.Sound) {i : Nat} (hp : d.node? p = some (.file i)) :
    d.removeFile p = .ok (d.drop p) := by
  simp [removeFile, lookup, hs.reach hp, hp, bind, Except.bind, pure, Except.pure]

theorem removeFile_of_not_file (hs : d.Sound) (hp : ∀ i, d.node? p ≠ some (.file i)) :
    ∃ err, d.removeFile p = .error err := by
  cases hr : d.removeFile p with
  | error err => exact ⟨err, rfl⟩
  | ok d' =>
    obtain ⟨⟨i, hi⟩, -⟩ := removeFile_eq_ok hs hr
    exact absurd hi (hp i)

theorem node?_drop_file (hs : d.Sound) {i : Nat} (hp : d.node? p = some (.file i)) (q : Place) :
    (d.drop p).node? q = if q = p then none else d.node? q := by
  obtain ⟨-, -, -, hq⟩ := removeFile_eq_ok hs (removeFile_of_file hs hp)
  exact hq q

theorem inode?_isSome {q : Place} : (d.inode? q).isSome = true ↔ ∃ i, d.node? q = some (.file i) := by
  unfold inode?
  split <;> simp_all

/-- A sound disk is one whose listed places have directories above them and plain names. -/
theorem Sound.of_nodes
    (h : ∀ e ∈ d.nodes, (∀ k < e.1.length, d.node? (e.1.take k) = some .dir) ∧ ∀ s ∈ e.1, Plain s) :
    d.Sound := by
  have hlisted : ∀ q n, d.node? q = some n → q = [] ∨ ∃ e ∈ d.nodes, e.1 = q := by
    intro q n hq
    by_cases h0 : q = []
    · exact .inl h0
    · rw [node?_of_ne_nil _ h0] at hq
      obtain ⟨e, he, -⟩ := Option.map_eq_some_iff.1 hq
      exact .inr ⟨e, List.mem_of_find?_eq_some he, by simpa using List.find?_some he⟩
  constructor
  · intro q n hq k hk
    rcases hlisted q n hq with rfl | ⟨e, he, rfl⟩
    · simp at hk
    · exact (h e he).1 k hk
  · intro q n hq s hs
    rcases hlisted q n hq with rfl | ⟨e, he, rfl⟩
    · simp at hs
    · exact (h e he).2 s hs

end FileSystem.Disk

namespace Sweep

variable {s : Sweep} {e : Archive.Entry} {p : Place}

theorem delete_of_file (hp : place? e.path = some p) (hs : s.disk.Sound) {i : Nat}
    (hf : s.disk.node? p = some (.file i)) :
    s.delete e = (true, ⟨{ s.container with gate := s.container.gate.decArchived },
      s.disk.drop p⟩) := by
  simp [delete, Disk.removeFileAt, placeOf_of_place? hp, bind, Except.bind,
    Disk.removeFile_of_file hs hf]

theorem delete_of_not_file (hp : place? e.path = some p) (hs : s.disk.Sound)
    (hf : ∀ i, s.disk.node? p ≠ some (.file i)) : s.delete e = (false, s) := by
  obtain ⟨err, herr⟩ := Disk.removeFile_of_not_file hs hf
  simp [delete, Disk.removeFileAt, placeOf_of_place? hp, bind, Except.bind, herr]

/-- The sweep after deleting entries one after another. -/
def deleteAll (s : Sweep) (es : List Archive.Entry) : Sweep :=
  es.foldl (fun s e => (s.delete e).2) s

@[simp] theorem deleteAll_nil (s : Sweep) : s.deleteAll [] = s := rfl

@[simp] theorem deleteAll_cons (s : Sweep) (e : Archive.Entry) (es : List Archive.Entry) :
    s.deleteAll (e :: es) = (s.delete e).2.deleteAll es := rfl

theorem deleteAll_append (s : Sweep) (es es' : List Archive.Entry) :
    s.deleteAll (es ++ es') = (s.deleteAll es).deleteAll es' := List.foldl_append

theorem deleteAll_container (s : Sweep) (es : List Archive.Entry) :
    ∃ g, (s.deleteAll es).container = { s.container with gate := g } := by
  induction es generalizing s with
  | nil => exact ⟨s.container.gate, rfl⟩
  | cons e es ih =>
    obtain ⟨g, hg⟩ := ih (s.delete e).2
    rw [deleteAll_cons, hg]
    unfold delete
    split
    · exact ⟨g, rfl⟩
    · exact ⟨g, rfl⟩

/-- Deleting entries unlinks the regular file at each entry's place, and nothing else. -/
theorem deleteAll_node (es : List Archive.Entry) (s : Sweep) (hs : s.disk.Sound)
    (hes : ∀ e ∈ es, ∃ p, place? e.path = some p) (q : Place) :
    (s.deleteAll es).disk.node? q =
      if (∃ e ∈ es, place? e.path = some q) ∧ (s.disk.inode? q).isSome then none
      else s.disk.node? q := by
  induction es generalizing s with
  | nil => simp
  | cons e es ih =>
    obtain ⟨p, hp⟩ := hes e List.mem_cons_self
    have hes' : ∀ e' ∈ es, ∃ p, place? e'.path = some p :=
      fun e' he' => hes e' (List.mem_cons_of_mem e he')
    by_cases hf : (s.disk.inode? p).isSome = true
    · -- the file is unlinked, and the rest is deleted from the disk without it
      obtain ⟨i, hi⟩ := Disk.inode?_isSome.1 hf
      rw [deleteAll_cons, delete_of_file hp hs hi, ih _ (hs.drop p) hes',
        Disk.node?_drop_file hs hi]
      by_cases hq : q = p
      · subst hq
        simp [Disk.inode?, hi, hp]
      · simp [Disk.inode?, hq, Disk.node?_drop_file hs hi, hp, Ne.symm hq]
    · have hf' : ∀ i, s.disk.node? p ≠ some (.file i) :=
        fun i h => hf (Disk.inode?_isSome.2 ⟨i, h⟩)
      rw [deleteAll_cons, delete_of_not_file hp hs hf', ih _ hs hes']
      by_cases hq : q = p
      · subst hq
        simp [hf]
      · simp [hp, Ne.symm hq]

theorem sweepExpired_sweep (threshold : Nat) (overBudget : Bool) (es : List Archive.Entry)
    (r : Expiry) (s : Sweep) (kept : List Archive.Entry) (oldest : Nat) :
    (sweepExpired threshold overBudget es (r, s, kept, oldest)).2.1 =
      s.deleteAll (es.filter (·.lastModified < threshold)) := by
  induction es generalizing r s kept oldest with
  | nil => simp [sweepExpired]
  | cons e es ih =>
    by_cases hexp : e.lastModified < threshold
    · simp [sweepExpired, hexp, ih]
    · simp [sweepExpired, hexp, ih]

theorem sweepExpired_node (threshold : Nat) (overBudget : Bool) (es : List Archive.Entry)
    (r : Expiry) (s : Sweep) (kept : List Archive.Entry) (oldest : Nat) (hs : s.disk.Sound)
    (hes : ∀ e ∈ es, ∃ p, place? e.path = some p) (q : Place) :
    (sweepExpired threshold overBudget es (r, s, kept, oldest)).2.1.disk.node? q =
      if (∃ e ∈ es, place? e.path = some q ∧ e.lastModified < threshold) ∧
        (s.disk.inode? q).isSome then none else s.disk.node? q := by
  have hiff : (∃ e ∈ es.filter (·.lastModified < threshold), place? e.path = some q) ↔
      ∃ e ∈ es, place? e.path = some q ∧ e.lastModified < threshold := by
    simp only [List.mem_filter, decide_eq_true_eq]
    constructor
    · rintro ⟨e, ⟨he, hexp⟩, hq⟩
      exact ⟨e, he, hq, hexp⟩
    · rintro ⟨e, he, hq, hexp⟩
      exact ⟨e, ⟨he, hexp⟩, hq⟩
  rw [sweepExpired_sweep, deleteAll_node _ _ hs fun e he => hes e (List.mem_filter.1 he).1]
  exact if_congr (and_congr_left' hiff) rfl rfl

theorem sweepExpired_kept (threshold : Nat) (overBudget : Bool) (es : List Archive.Entry)
    (r : Expiry) (s : Sweep) (kept : List Archive.Entry) (oldest : Nat) :
    (sweepExpired threshold overBudget es (r, s, kept, oldest)).2.2.1 =
      if overBudget then kept ++ es.filter (fun e => threshold ≤ e.lastModified) else kept := by
  induction es generalizing r s kept oldest with
  | nil => cases overBudget <;> simp [sweepExpired]
  | cons e es ih =>
    by_cases hexp : e.lastModified < threshold
    · simp only [sweepExpired, hexp, if_true, ih]
      cases overBudget <;> simp [hexp]
    · simp only [sweepExpired, hexp, if_false, ih]
      cases overBudget <;> simp [Nat.le_of_not_lt hexp]

theorem fromQueue_of_peek {s : Sweep} (h : s.container.archived.peek = none)
    (threshold toFree now fuel : Nat) (r : Expiry) :
    fromQueue threshold toFree now fuel r s = (none, r, s) := by
  cases fuel <;> simp [fromQueue, h]

end Sweep

/-- The places of a container's archived files older than a threshold: regular files directly
in the archive directory of one of its sections, whose age is below the threshold. -/
def Container.ExpiredArchive (c : Container) (d : Disk) (root : Place) (threshold : Nat)
    (q : Place) : Prop :=
  ∃ j < c.sections, ∃ n, q = root ++ [toString j, Archive.dirName, n] ∧
    (∃ i, d.node? q = some (.file i)) ∧ lastModTime d (join (c.archiveDir (toString j)) n) < threshold

theorem Container.expiredArchive_iff {c : Container} {d : Disk} {root : Place}
    (hroot : place? c.root = some root) (hd : d.Sound) (threshold : Nat) (q : Place) :
    c.ExpiredArchive d root threshold q ↔
      (∃ e ∈ (Sweep.mk c d).scan, place? e.path = some q ∧ e.lastModified < threshold) ∧
        (d.inode? q).isSome = true := by
  constructor
  · rintro ⟨j, hj, n, rfl, ⟨i, hi⟩, hlm⟩
    obtain ⟨e, he, hp, -, helm⟩ := Sweep.scan_of_node? (s := ⟨c, d⟩) hroot hd hj hi
    exact ⟨⟨e, he, hp, helm ▸ hlm⟩, Disk.inode?_isSome.2 ⟨i, hi⟩⟩
  · rintro ⟨⟨e, he, hp, hlm⟩, hf⟩
    obtain ⟨j, hj, n, -, hp', -, -, helm⟩ := Sweep.scan_place (s := ⟨c, d⟩) hroot hd he
    obtain rfl : q = root ++ [toString j, Archive.dirName, n] := Option.some_inj.1 (hp.symm.trans hp')
    exact ⟨j, hj, n, rfl, Disk.inode?_isSome.1 hf, helm ▸ hlm⟩

/-- A pass that starts with nothing queued and enough usable space answers a result, unlinks
every archived file older than the retention and leaves every other place as it was. -/
theorem Container.expire_deletes_exactly_expired {c : Container} {d : Disk} {root : Place}
    (probe : Probe) (now retention : Nat) {m u : Nat} (hroot : place? c.root = some root)
    (hd : d.Sound) (hm : c.minUsable = some m) (hq : c.archived.items = [])
    (hu : (Sweep.mk c d).usable probe = .ok u) (hmu : m ≤ u) :
    (∃ r, (c.expire d probe now retention).1 = .ok r) ∧
      (∀ q, c.ExpiredArchive d root (now - retention) q →
        (c.expire d probe now retention).2.2.node? q = none) ∧
      (∀ q, ¬ c.ExpiredArchive d root (now - retention) q →
        (c.expire d probe now retention).2.2.node? q = d.node? q) := by
  have hpeek : (Sweep.mk c d).container.archived.peek = none := by simp [Fifo.peek, hq]
  have hshort : decide (u < m) = false := by simp; omega
  unfold Container.expire
  simp only [hm, hu, Sweep.fromQueue_of_peek hpeek, Sweep.sweepExpired_kept, hshort,
    Bool.false_eq_true, if_false, List.mergeSort_nil, List.zipIdx_nil, List.map_nil,
    Sweep.sweepSpace, List.drop_nil, List.take_nil, List.foldl_nil, Sweep.settle]
  have hes : ∀ e ∈ (Sweep.mk c d).scan, ∃ p, place? e.path = some p := by
    intro e he
    obtain ⟨j, -, n, -, hp, -⟩ := Sweep.scan_place hroot hd he
    exact ⟨_, hp⟩
  have hnode := Sweep.sweepExpired_node (now - retention) false _ {} ⟨c, d⟩ [] noAge hd hes
  refine ⟨⟨_, rfl⟩, fun q hq => ?_, fun q hq => ?_⟩
  · rw [hnode q, if_pos ((expiredArchive_iff hroot hd _ q).1 hq)]
  · rw [hnode q, if_neg (mt (expiredArchive_iff hroot hd _ q).2 hq)]

/-- A pass over a container with no queue unlinks an archived file whose id is older than the
retention. -/
theorem Container.expire_deletes_old_archived_file :
    (Container.expire
      { name := "default", root := "c", sections := 2, gate := Gate.create "default" true 8 0.5,
        reclaimable := Fifo.empty 8, archived := Fifo.empty 100000, minUsable := some 501,
        oldest := 0 }
      ⟨[(["work"], .dir), (["work", "c"], .dir), (["work", "c", "0"], .dir),
        (["work", "c", "0", "archive"], .dir),
        (["work", "c", "0", "archive", "6000000000000-2"], .file 0), (["work", "c", "1"], .dir),
        (["work", "c", "1", "archive"], .dir), (["work", "c", "1", "archive", "7000-3"], .file 1)],
        #[⟨⟨#[98]⟩, 0⟩, ⟨⟨#[120]⟩, 0⟩]⟩
      (Probe.Script.probe { usable := .fixed 600000 }) 2000000000000 1000).2.2.node?
        ["work", "c", "1", "archive", "7000-3"] = none :=
  (Container.expire_deletes_exactly_expired _ _ _ (m := 501)
    (show place? "c" = some ["work", "c"] by decide +kernel)
    (Disk.Sound.of_nodes (by decide +kernel)) rfl rfl rfl (by decide)).2.1 _
    ⟨1, by decide, "7000-3", rfl, ⟨1, by decide +kernel⟩, by decide +kernel⟩

/-- A pass that starts with a queue works through the queue alone. Here the queue holds a young
file left by an earlier pass, and a file archived since, with an old id, is expired: the pass
answers a result with usable space above the minimum, and the expired file stays. -/
theorem Container.expire_keeps_expired_behind_queue :
    ∃ (c : Container) (d : Disk) (probe : Probe) (now retention m u : Nat) (root q : Place),
      place? c.root = some root ∧ d.Sound ∧ c.minUsable = some m ∧
      (Sweep.mk c d).usable probe = .ok u ∧ m ≤ u ∧
      (∃ r, (c.expire d probe now retention).1 = .ok r) ∧
      c.ExpiredArchive d root (now - retention) q ∧
      ∃ i, (c.expire d probe now retention).2.2.node? q = some (.file i) := by
  refine ⟨
    { name := "default", root := "c", sections := 2, gate := Gate.create "default" true 8 0.5,
      reclaimable := Fifo.empty 8,
      archived := ⟨[⟨"c", "0/archive/6000000000000-2", "6000000000000-2", 10, 6000000000000⟩],
        100000, by decide, by decide⟩,
      minUsable := some 501, oldest := 6000000000000 },
    ⟨[(["work"], .dir), (["work", "c"], .dir), (["work", "c", "0"], .dir),
      (["work", "c", "0", "archive"], .dir),
      (["work", "c", "0", "archive", "6000000000000-2"], .file 0), (["work", "c", "1"], .dir),
      (["work", "c", "1", "archive"], .dir), (["work", "c", "1", "archive", "7000-3"], .file 1)],
      #[⟨⟨#[98]⟩, 0⟩, ⟨⟨#[120]⟩, 0⟩]⟩,
    (Probe.Script.probe { usable := .fixed 600000 }), 2000000000000, 1000, 501, 600000, ["work", "c"],
    ["work", "c", "1", "archive", "7000-3"], by decide +kernel,
    Disk.Sound.of_nodes (by decide +kernel), rfl, rfl, by decide, ⟨_, rfl⟩,
    ⟨1, by decide, "7000-3", rfl, ⟨1, by decide +kernel⟩, by decide +kernel⟩, 1, by decide +kernel⟩

end ClaimStore
