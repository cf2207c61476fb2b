import ClaimStore.Proofs.Repo.Commuting
import ClaimStore.Proofs.Tracker.Undoing
/-!
# Destroying claims in any order

Destroying a claim goes along a course the repository alone decides (`Repo.course`): its
container is unknown and it fails, the tracker refuses to let its destruction begin and it is
skipped, or the destruction begins, the claim is forgotten, its step on the disk (`reclaimStep`)
decides the verdict and, when archiving moved its file, its container counts one more archived
file (`Action.exec_destroy`). So destroying two claims of different keys touches two records, two
steps on the disk that commute, and a counter per container that only grows: in a reachable
world either order ends with the same report and alike stores (`Inv.destroy_swap`), alike meaning
equal but for the order in which the disk lists its places (`Store.Same`). By induction over
permutations every order of a list of claims does (`Store.destroyAll_perm`).

Destroying a claim again right after finds its file gone, or fails as the first time did, and
changes nothing (`Inv.destroy_again`). Main statement: `Action.destroy_order_irrelevant`.

Two kinds of claims are kept out, and for both the order shows in the report: a claim named like
the archive directory while archiving, and claims of containers sharing or nesting roots, which
no reachable world has (`destruction_order_and_copies_seen`).
-/

set_option autoImplicit false

namespace ClaimStore

open ClaimStore.Claim ClaimStore.FileSystem ClaimStore.FileSystem.Disk

/-! ## The tracker -/

namespace Tracker

variable (t : Tracker) (c : Resource) {target : Lifecycle}

theorem beginDestruction_snd_of_not_begin (hb : (t.beginDestruction c target).1 = false)
    (ht : target = .archived ∨ target = .removed) : (t.beginDestruction c target).2 = t := by
  have hd : (t.record c.key).destructable = false := by
    rw [Bool.eq_false_iff]
    intro hd
    simp only [Record.destructable, Bool.and_eq_true, beq_iff_eq] at hd
    rw [(beginDestruction_fst t c target).2 ⟨hd.1, hd.2, ht⟩] at hb
    cases hb
  unfold beginDestruction at hb ⊢
  dsimp only at hb ⊢
  split
  · rw [hd]
    rfl
  · next h =>
    rw [if_neg h] at hb
    cases hb

theorem erase_put (k : ClaimKey) (r : Record) : (t.put k r).erase k = t.erase k := by
  simp [erase, put, List.filter_filter]

theorem finishDestruction_of_begin (hb : (t.beginDestruction c target).1 = true) :
    (t.beginDestruction c target).2.finishDestruction c = t.erase c.key := by
  obtain ⟨-, -, htarget⟩ := (beginDestruction_fst t c target).1 hb
  have hd : target.isDestroyed = true := by rcases htarget with rfl | rfl <;> rfl
  rw [beginDestruction_of_fst t c hb]
  unfold finishDestruction
  rw [find?_put, if_pos rfl]
  simp only [hd, ↓reduceIte, erase_put]

theorem abortDestruction_of_begin (hb : (t.beginDestruction c target).1 = true) :
    (t.beginDestruction c target).2.abortDestruction c = t.erase c.key := by
  obtain ⟨-, -, htarget⟩ := (beginDestruction_fst t c target).1 hb
  have hd : target.isDestroyed = true := by rcases htarget with rfl | rfl <;> rfl
  rw [beginDestruction_of_fst t c hb]
  unfold abortDestruction
  rw [find?_put, if_pos rfl]
  simp only [hd, ↓reduceIte, erase_put]

theorem erase_comm (k k' : ClaimKey) : (t.erase k).erase k' = (t.erase k').erase k := by
  simp only [erase, List.filter_filter, Bool.and_comm]

theorem erase_erase (k : ClaimKey) : (t.erase k).erase k = t.erase k := by
  simp [erase, List.filter_filter]

theorem beginDestruction_erase {k : ClaimKey} (hk : c.key ≠ k) :
    ((t.erase k).beginDestruction c target).1 = (t.beginDestruction c target).1 := by
  have hrec : (t.erase k).record c.key = t.record c.key := by
    simp only [record, find?_erase, if_neg hk]
  rw [Bool.eq_iff_iff, beginDestruction_fst, beginDestruction_fst, hrec]

theorem beginDestruction_erase_self (ht : target = .archived ∨ target = .removed) :
    ((t.erase c.key).beginDestruction c target).1 = true := by
  have hrec : (t.erase c.key).record c.key = .unknown := by
    simp only [record, find?_erase]
    rfl
  rw [beginDestruction_fst, hrec]
  exact ⟨rfl, rfl, ht⟩

end Tracker

/-! ## Counting archived files -/

/-- Counts one more archived file in the container of a name. -/
def Repo.countArchived (r : Repo) (name : String) : Repo :=
  { r with containers := r.containers.map fun c =>
      if c.name = name then { c with gate := c.gate.incArchived } else c }

namespace Repo

variable (r : Repo)

theorem setContainer_incArchived (hnames : (r.containers.map (·.name)).Nodup) {name : String}
    {box : Container} (hbox : r.container? name = some box) :
    r.setContainer { box with gate := box.gate.incArchived } = r.countArchived name := by
  obtain ⟨hmem, rfl⟩ := mem_of_container? hbox
  simp only [setContainer, countArchived]
  congr 1
  refine List.map_congr_left fun c hc => ?_
  by_cases hname : c.name = box.name
  · rw [if_pos (beq_iff_eq.2 hname), if_pos hname,
      List.inj_on_of_nodup_map hnames hc hmem hname]
  · rw [if_neg (by simpa using hname), if_neg hname]

theorem countArchived_comm (m n : String) :
    (r.countArchived m).countArchived n = (r.countArchived n).countArchived m := by
  simp only [countArchived, List.map_map]
  congr 1
  refine List.map_congr_left fun c _ => ?_
  by_cases hm : c.name = m <;> by_cases hn : c.name = n
  · -- one container, counted twice either way
    subst hm hn
    rfl
  · simp only [Function.comp_apply, if_pos hm, if_neg hn]
  · simp only [Function.comp_apply, if_pos hn, if_neg hm]
  · simp only [Function.comp_apply, if_neg hm, if_neg hn]

@[simp] theorem tracker_countArchived (n : String) : (r.countArchived n).tracker = r.tracker := rfl

theorem countArchived_with_tracker (t : Tracker) (n : String) :
    ({ r with tracker := t } : Repo).countArchived n = { r.countArchived n with tracker := t } :=
  rfl

theorem container?_countArchived (m n : String) :
    (r.countArchived n).container? m =
      (r.container? m).map fun c => if c.name = n then { c with gate := c.gate.incArchived } else c := by
  simp only [container?, countArchived, List.find?_map]
  congr 1
  refine congrArg (List.find? · r.containers) (funext fun c => ?_)
  by_cases hn : c.name = n <;> simp [hn]

end Repo

/-! ## Destroying one claim -/

/-- How destroying a claim goes: its container is unknown, the tracker does not let its
destruction begin, or it begins and its step on the disk acts on the claim's path. -/
inductive Course where
  | unknown
  | refused
  | begun (path : String)

/-- The course of destroying `c`, which the repository alone decides. -/
def Repo.course (r : Repo) (c : Resource) : Course :=
  match (r.container? c.container).map (·.claimPath c) with
  | none => .unknown
  | some path =>
    if (r.tracker.beginDestruction c
        (if r.settings.archiveEnabled then .archived else .removed)).1 then .begun path
    else .refused

/-- The report after one more claim's verdict: archived or removed, skipped, or failed. -/
def Destruction.tally (r : Destruction) (archiving : Bool) : Except IoError Bool → Destruction
  | .ok true =>
    if archiving then { r with archived := r.archived + 1 } else { r with removed := r.removed + 1 }
  | .ok false => { r with skipped := r.skipped + 1 }
  | .error _ => { r with failed := r.failed + 1 }

/-- Whether a verdict counts an archived file: archiving moved the file. -/
def countsArchived (archiving : Bool) : Except IoError Bool → Bool
  | .ok moved => archiving && moved
  | .error _ => false

/-- The store after the destruction of `c` began and its step on the disk ended in `x`: the
claim forgotten, the disk the step left, and one more archived file counted when archiving
moved the file. -/
def Store.reclaimed (s : Store) (c : Resource) (archiving : Bool)
    (x : Except IoError Bool × Disk) : Store :=
  let r : Repo := { s.repo with tracker := s.repo.tracker.erase c.key }
  { repo := if countsArchived archiving x.1 then r.countArchived c.container else r,
    host := { s.host with disk := x.2 } }

/-- Destroying `c` along a course: a claim of an unknown container fails, a refused one is
skipped, and a begun one is decided by its step on the disk. -/
def Store.destroyed (s : Store) (report : Destruction) (c : Resource) : Course → Destruction × Store
  | .unknown => ({ report with failed := report.failed + 1 }, s)
  | .refused => ({ report with skipped := report.skipped + 1 }, s)
  | .begun path =>
    (report.tally s.repo.settings.archiveEnabled
        (reclaimStep s.repo.settings.archiveEnabled path s.host.disk).1,
      s.reclaimed c s.repo.settings.archiveEnabled
        (reclaimStep s.repo.settings.archiveEnabled path s.host.disk))

/-- Destroying `c` in `s`, as a function: along the course the repository decides. -/
def Store.destroy (s : Store) (report : Destruction) (c : Resource) : Destruction × Store :=
  s.destroyed report c (s.repo.course c)

/-- Destroying claims one after another, as a function. -/
def Store.destroyAll (s : Store) (report : Destruction) : List Resource → Destruction × Store
  | [] => (report, s)
  | c :: l => (s.destroy report c).2.destroyAll (s.destroy report c).1 l

namespace Action

/-- Destroying a claim in a store with distinct container names, where a claim whose destruction
may begin has no stream, goes along the course the repository decides, and never fails. -/
theorem exec_destroy (report : Destruction) (c : Resource) {s : Store}
    (hnames : (s.repo.containers.map (·.name)).Nodup)
    (hn : ∀ target, (s.repo.tracker.beginDestruction c target).1 = true →
      s.repo.streamOf? c = none) :
    (destroy report c).exec s =
      (.ok (s.destroy report c).1, (s.destroy report c).2) := by
  unfold destroy Store.destroy
  simp only [exec_bind, exec_repo, exec_attempt]
  cases ha : s.repo.settings.archiveEnabled
  · -- removing
    simp only [Bool.false_eq_true, if_false]
    cases hbox : s.repo.container? c.container with
    | none =>
      have hk : s.repo.course c = .unknown := by simp [Repo.course, hbox]
      rw [exec_removeResource_of_none s hbox, hk]
      rfl
    | some box =>
      cases hb : (s.repo.tracker.beginDestruction c .removed).1
      · have hk : s.repo.course c = .refused := by simp [Repo.course, hbox, ha, hb]
        rw [exec_removeResource_of_not_begin s hbox hb,
          Tracker.beginDestruction_snd_of_not_begin _ _ hb (.inr rfl), hk]
        rfl
      · have hk : s.repo.course c = .begun (box.claimPath c) := by
          simp [Repo.course, hbox, ha, hb]
        rw [exec_removeResource_of_begin s hbox hb (hn _ hb), hk]
        simp only [Tracker.finishDestruction_of_begin _ _ hb,
          Tracker.abortDestruction_of_begin _ _ hb, Store.destroyed, ha]
        cases hrm : s.host.disk.removeFileAt (box.claimPath c) with
        | ok d => simp [reclaimStep, hrm, settle, Destruction.tally, Store.reclaimed, countsArchived]
        | error e =>
          cases e <;>
            simp [reclaimStep, hrm, settle, Destruction.tally, Store.reclaimed, countsArchived]
  · -- archiving
    simp only [if_true]
    cases hbox : s.repo.container? c.container with
    | none =>
      have hk : s.repo.course c = .unknown := by simp [Repo.course, hbox]
      rw [exec_archive_of_none s ha hbox, hk]
      rfl
    | some box =>
      cases hb : (s.repo.tracker.beginDestruction c .archived).1
      · have hk : s.repo.course c = .refused := by simp [Repo.course, hbox, ha, hb]
        rw [exec_archive_of_not_begin s ha hbox hb,
          Tracker.beginDestruction_snd_of_not_begin _ _ hb (.inl rfl), hk]
        rfl
      · have hk : s.repo.course c = .begun (box.claimPath c) := by
          simp [Repo.course, hbox, ha, hb]
        rw [exec_archive_of_begin s ha hbox hb (hn _ hb), hk]
        simp only [Tracker.finishDestruction_of_begin _ _ hb,
          Tracker.abortDestruction_of_begin _ _ hb, Store.destroyed, ha]
        cases har : archiveFile s.host.disk (box.claimPath c) with
        | ok x =>
          obtain ⟨moved, d⟩ := x
          cases moved
          · simp [reclaimStep, har, Destruction.tally, Store.reclaimed, countsArchived]
          · -- the container is looked up again, and counts the file
            have hset := Repo.setContainer_incArchived
              ({ s.repo with tracker := s.repo.tracker.erase c.key } : Repo) hnames hbox
            simp [reclaimStep, har, Destruction.tally, Store.reclaimed, countsArchived, hset]
        | error e => simp [reclaimStep, har, Destruction.tally, Store.reclaimed, countsArchived]

theorem exec_destroy_of_inv {W : World} (hI : Inv W) {s : Store} (hs : s.repo = W.store.repo)
    (report : Destruction) (c : Resource) :
    (destroy report c).exec s =
      (.ok (s.destroy report c).1, (s.destroy report c).2) :=
  exec_destroy report c (hs ▸ hI.layout.names) fun _ hb => hs ▸ hI.streamOf?_of_begin (hs ▸ hb)

end Action

/-! ## Stores alike up to the disk's listing order -/

namespace Store

/-- Two stores alike up to the order in which the disk lists its places: the same repository,
the same clock, streams and cells, and disks holding the same tree. -/
structure Same (s s' : Store) : Prop where
  repo : s.repo = s'.repo
  host : { s.host with disk := s'.host.disk } = s'.host
  disk : s.host.disk.Same s'.host.disk

namespace Same

variable {s s' s'' : Store}

theorem refl (s : Store) : s.Same s := ⟨rfl, rfl, Disk.Same.refl _⟩

theorem symm (h : s.Same s') : s'.Same s := by
  refine ⟨h.repo.symm, ?_, h.disk.symm⟩
  rw [← h.host]

theorem trans (h : s.Same s') (h' : s'.Same s'') : s.Same s'' := by
  refine ⟨h.repo.trans h'.repo, ?_, h.disk.trans h'.disk⟩
  rw [← h'.host, ← h.host]

theorem reclaimed (h : s.Same s') (c : Resource) (archiving : Bool)
    {x y : Except IoError Bool × Disk} (hv : x.1 = y.1) (hd : x.2.Same y.2) :
    (s.reclaimed c archiving x).Same (s'.reclaimed c archiving y) := by
  refine ⟨by simp only [Store.reclaimed, h.repo, hv], ?_, hd⟩
  simp only [Store.reclaimed]
  rw [← h.host]

theorem destroyed (h : s.Same s') (report : Destruction) (c : Resource) (k : Course)
    (hk : ∀ path, k = .begun path → ∀ d e : Disk, d.Same e →
      (reclaimStep s.repo.settings.archiveEnabled path d).1 =
          (reclaimStep s.repo.settings.archiveEnabled path e).1 ∧
        (reclaimStep s.repo.settings.archiveEnabled path d).2.Same
          (reclaimStep s.repo.settings.archiveEnabled path e).2) :
    (s.destroyed report c k).1 = (s'.destroyed report c k).1 ∧
      (s.destroyed report c k).2.Same (s'.destroyed report c k).2 := by
  cases k with
  | unknown => exact ⟨rfl, h⟩
  | refused => exact ⟨rfl, h⟩
  | begun path =>
    obtain ⟨hv, hd⟩ := hk path rfl _ _ h.disk
    simp only [Store.destroyed, ← h.repo]
    exact ⟨by rw [hv], h.reclaimed c _ hv hd⟩

end Same

end Store

/-! ## Destroying two claims -/

namespace Destruction

variable (r : Destruction) (archiving : Bool) (v w : Except IoError Bool)

theorem tally_comm :
    (r.tally archiving v).tally archiving w = (r.tally archiving w).tally archiving v := by
  rcases v with _ | _ | _ <;> rcases w with _ | _ | _ <;> cases archiving <;> rfl

theorem tally_failed :
    ({ r with failed := r.failed + 1 } : Destruction).tally archiving v =
      { r.tally archiving v with failed := (r.tally archiving v).failed + 1 } := by
  rcases v with _ | _ | _ <;> cases archiving <;> rfl

theorem tally_skipped :
    ({ r with skipped := r.skipped + 1 } : Destruction).tally archiving v =
      { r.tally archiving v with skipped := (r.tally archiving v).skipped + 1 } := by
  rcases v with _ | _ | _ <;> cases archiving <;> rfl

end Destruction

/-- A begun course acts on the claim's path in its container. -/
theorem Repo.course_eq_begun {r : Repo} {c : Resource} {path : String}
    (h : r.course c = .begun path) :
    ∃ box, r.container? c.container = some box ∧ box.claimPath c = path ∧
      (r.tracker.beginDestruction c
        (if r.settings.archiveEnabled then .archived else .removed)).1 = true := by
  unfold Repo.course at h
  cases hpath : (r.container? c.container).map (·.claimPath c) with
  | none =>
    rw [hpath] at h
    cases h
  | some path' =>
    rw [hpath] at h
    obtain ⟨box, hbox, rfl⟩ := Option.map_eq_some_iff.1 hpath
    refine ⟨box, hbox, ?_⟩
    simp only at h
    by_cases hb : (r.tracker.beginDestruction c
        (if r.settings.archiveEnabled then .archived else .removed)).1 = true
    · rw [if_pos hb] at h
      cases h
      exact ⟨rfl, hb⟩
    · rw [if_neg hb] at h
      cases h

theorem Repo.course_congr {r r' : Repo} {c : Resource}
    (hpath : (r'.container? c.container).map (·.claimPath c) =
      (r.container? c.container).map (·.claimPath c))
    (hsettings : r'.settings = r.settings)
    (hbegin : (r'.tracker.beginDestruction c
        (if r.settings.archiveEnabled then .archived else .removed)).1 =
      (r.tracker.beginDestruction c (if r.settings.archiveEnabled then .archived else .removed)).1) :
    r'.course c = r.course c := by
  unfold course
  rw [hpath, hsettings, hbegin]

namespace Store

variable (s : Store)

theorem settings_reclaimed (c : Resource) (archiving : Bool) (x : Except IoError Bool × Disk) :
    (s.reclaimed c archiving x).repo.settings = s.repo.settings := by
  unfold reclaimed
  split <;> rfl

theorem settings_destroyed (report : Destruction) (c : Resource) (k : Course) :
    (s.destroyed report c k).2.repo.settings = s.repo.settings := by
  cases k with
  | unknown => rfl
  | refused => rfl
  | begun path => exact settings_reclaimed s c _ _

theorem tracker_reclaimed (c : Resource) (archiving : Bool) (x : Except IoError Bool × Disk) :
    (s.reclaimed c archiving x).repo.tracker = s.repo.tracker.erase c.key := by
  unfold reclaimed
  split <;> rfl

theorem claimPath_reclaimed (c : Resource) (archiving : Bool) (x : Except IoError Bool × Disk)
    (c' : Resource) :
    ((s.reclaimed c archiving x).repo.container? c'.container).map (·.claimPath c') =
      (s.repo.container? c'.container).map (·.claimPath c') := by
  unfold reclaimed
  split
  · rw [Repo.container?_countArchived, Option.map_map]
    congr 1
    funext b
    simp only [Function.comp_apply]
    split <;> rfl
  · rfl

theorem course_reclaimed {c c' : Resource} (hk : c.key ≠ c'.key) (archiving : Bool)
    (x : Except IoError Bool × Disk) :
    (s.reclaimed c archiving x).repo.course c' = s.repo.course c' :=
  Repo.course_congr (claimPath_reclaimed s c archiving x c') (settings_reclaimed s c archiving x)
    (by rw [tracker_reclaimed, Tracker.beginDestruction_erase _ _ (Ne.symm hk)])

theorem course_destroyed {c c' : Resource} (hk : c.key ≠ c'.key) (report : Destruction)
    (k : Course) : (s.destroyed report c k).2.repo.course c' = s.repo.course c' := by
  cases k with
  | unknown => rfl
  | refused => rfl
  | begun path => exact course_reclaimed s hk _ _

theorem Same.reclaimed_comm {c1 c2 : Resource} (archiving : Bool)
    {x1 x2 y1 y2 : Except IoError Bool × Disk} (h1 : x1.1 = y1.1) (h2 : x2.1 = y2.1)
    (hd : x2.2.Same y1.2) :
    ((s.reclaimed c1 archiving x1).reclaimed c2 archiving x2).Same
      ((s.reclaimed c2 archiving y2).reclaimed c1 archiving y1) := by
  refine ⟨?_, rfl, hd⟩
  simp only [Store.reclaimed, h1, h2]
  cases countsArchived archiving y1.1 <;> cases countsArchived archiving y2.1 <;>
    simp only [Bool.false_eq_true, if_true, if_false, Repo.countArchived_with_tracker,
      Repo.countArchived_comm, Tracker.erase_comm]

/-- Destroying two claims along given courses commutes when their steps on the disk do: either
order ends with the same report and alike stores. -/
theorem destroyed_comm {c1 c2 : Resource} (k1 k2 : Course)
    (hsteps : ∀ p1 p2, k1 = .begun p1 → k2 = .begun p2 →
      Commute (reclaimStep s.repo.settings.archiveEnabled p1)
        (reclaimStep s.repo.settings.archiveEnabled p2) s.host.disk)
    (report : Destruction) :
    ((s.destroyed report c1 k1).2.destroyed (s.destroyed report c1 k1).1 c2 k2).1 =
        ((s.destroyed report c2 k2).2.destroyed (s.destroyed report c2 k2).1 c1 k1).1 ∧
      ((s.destroyed report c1 k1).2.destroyed (s.destroyed report c1 k1).1 c2 k2).2.Same
        ((s.destroyed report c2 k2).2.destroyed (s.destroyed report c2 k2).1 c1 k1).2 := by
  cases k1 with
  | unknown =>
    cases k2 with
    | unknown => exact ⟨rfl, Same.refl _⟩
    | refused => exact ⟨rfl, Same.refl _⟩
    | begun p2 =>
      exact ⟨by simp only [destroyed, Destruction.tally_failed], Same.refl _⟩
  | refused =>
    cases k2 with
    | unknown => exact ⟨rfl, Same.refl _⟩
    | refused => exact ⟨rfl, Same.refl _⟩
    | begun p2 =>
      exact ⟨by simp only [destroyed, Destruction.tally_skipped], Same.refl _⟩
  | begun p1 =>
    cases k2 with
    | unknown =>
      exact ⟨by simp only [destroyed, Destruction.tally_failed], Same.refl _⟩
    | refused =>
      exact ⟨by simp only [destroyed, Destruction.tally_skipped], Same.refl _⟩
    | begun p2 =>
      -- both steps act on the disk: their verdicts stay, and the disks they leave are alike
      obtain ⟨h21, h12, hd⟩ := hsteps p1 p2 rfl rfl
      simp only [destroyed, settings_reclaimed]
      refine ⟨?_, Same.reclaimed_comm s _ h12.symm h21 hd⟩
      simp only [reclaimed, h21, h12]
      exact Destruction.tally_comm _ _ _ _

end Store

/-! ## Destroying in any order -/

namespace Store

theorem destroy_congr_key (s : Store) {c c' : Resource} (hk : c.key = c'.key)
    (report : Destruction) : s.destroy report c = s.destroy report c' := by
  obtain ⟨a, b, i, l⟩ := c
  obtain ⟨a', b', i', l'⟩ := c'
  simp only [Resource.key, Prod.mk.injEq] at hk
  obtain ⟨rfl, rfl, rfl⟩ := hk
  rfl

theorem settings_destroy (s : Store) (report : Destruction) (c : Resource) :
    (s.destroy report c).2.repo.settings = s.repo.settings :=
  settings_destroyed s report c _

end Store

namespace Inv

variable {W : World} (hI : Inv W)
include hI

theorem course_begun {c : Resource} {path : String} (h : W.store.repo.course c = .begun path) :
    ∃ box ∈ W.store.repo.containers, box.name = c.container ∧
      (∃ p, place? box.root = some p) ∧ box.claimPath c = path := by
  obtain ⟨box, hbox, rfl, -⟩ := Repo.course_eq_begun h
  obtain ⟨hmem, hname⟩ := Repo.mem_of_container? hbox
  exact ⟨box, hmem, hname, Option.isSome_iff_exists.1 (hI.layout.rooted box hmem), rfl⟩

theorem destroy {c : Resource} (hc : c.Plain) (report : Destruction) :
    Inv { W with store := (W.store.destroy report c).2 } := by
  have h := Action.keeps_destroy report hc W hI
  rwa [Action.exec_destroy_of_inv hI rfl] at h

theorem destroy_swap {c1 c2 : Resource} (hc1 : c1.Plain) (hc2 : c2.Plain)
    (hid1 : W.store.repo.settings.archiveEnabled = true → c1.id ≠ Archive.dirName)
    (hid2 : W.store.repo.settings.archiveEnabled = true → c2.id ≠ Archive.dirName)
    (report : Destruction) :
    ((W.store.destroy report c1).2.destroy (W.store.destroy report c1).1 c2).1 =
        ((W.store.destroy report c2).2.destroy (W.store.destroy report c2).1 c1).1 ∧
      ((W.store.destroy report c1).2.destroy (W.store.destroy report c1).1 c2).2.Same
        ((W.store.destroy report c2).2.destroy (W.store.destroy report c2).1 c1).2 := by
  by_cases hk : c1.key = c2.key
  · -- one key twice: either order destroys the same claim twice
    rw [Store.destroy_congr_key W.store hk report, Store.destroy_congr_key _ hk]
    exact ⟨rfl, Store.Same.refl _⟩
  · -- each claim keeps its course after the other's destruction
    unfold Store.destroy
    rw [Store.course_destroyed _ hk, Store.course_destroyed _ (Ne.symm hk)]
    refine W.store.destroyed_comm _ _ (fun p1 p2 h1 h2 => ?_) report
    obtain ⟨b1, hb1, hn1, ⟨q1, hq1⟩, rfl⟩ := hI.course_begun h1
    obtain ⟨b2, hb2, hn2, ⟨q2, hq2⟩, rfl⟩ := hI.course_begun h2
    exact reclaimStep_commute hI.layout hb1 hb2 hq1 hq2 hc1 hc2 hn1 hn2 hk hid1 hid2 hI.sound

end Inv

namespace Store

theorem destroyAll_same {l : List Resource} (hl : ∀ c ∈ l, c.Plain) :
    ∀ {W : World} {s' : Store} (report : Destruction), Inv W → W.store.Same s' →
      (W.store.destroyAll report l).1 = (s'.destroyAll report l).1 ∧
        (W.store.destroyAll report l).2.Same (s'.destroyAll report l).2 := by
  induction l with
  | nil => exact fun _ _ h => ⟨rfl, h⟩
  | cons c l ih =>
    intro W s' report hI h
    have hc := hl c List.mem_cons_self
    have hk : s'.destroy report c = s'.destroyed report c (W.store.repo.course c) := by
      rw [destroy, ← h.repo]
    obtain ⟨hr, hs⟩ := h.destroyed report c (W.store.repo.course c) fun path hp d e hde => by
      obtain ⟨box, -, -, ⟨p, hplace⟩, rfl⟩ := hI.course_begun hp
      exact reclaimStep_same hplace hc _ hde
    simp only [destroyAll, hk]
    rw [← hr]
    exact ih (fun c' h' => hl c' (List.mem_cons_of_mem _ h')) _ (hI.destroy hc report) hs

/-- Destroying claims gives one outcome for every order of them: the same report and alike
stores. The claims are plain and, while archiving, none is named like the archive directory. -/
theorem destroyAll_perm {l l' : List Resource} (hp : l.Perm l') :
    ∀ {W : World} (report : Destruction), Inv W →
      (∀ c ∈ l, c.Plain ∧ (W.store.repo.settings.archiveEnabled = true → c.id ≠ Archive.dirName)) →
      (W.store.destroyAll report l).1 = (W.store.destroyAll report l').1 ∧
        (W.store.destroyAll report l).2.Same (W.store.destroyAll report l').2 := by
  induction hp with
  | nil => exact fun _ _ _ => ⟨rfl, Same.refl _⟩
  | cons c _ ih =>
    intro W report hI hl
    have hc := hl c List.mem_cons_self
    refine ih _ (hI.destroy hc.1 report) fun c' h' => ?_
    rw [settings_destroy]
    exact hl c' (List.mem_cons_of_mem _ h')
  | swap c1 c2 l =>
    intro W report hI hl
    have h1 := hl c1 (by simp)
    have h2 := hl c2 (by simp)
    obtain ⟨hr, hs⟩ := hI.destroy_swap h2.1 h1.1 h2.2 h1.2 report
    simp only [destroyAll]
    rw [← hr]
    exact destroyAll_same (fun c h => (hl c (.tail _ (.tail _ h))).1) _
      ((hI.destroy h2.1 report).destroy h1.1 _) hs
  | trans h12 _ ih1 ih2 =>
    intro W report hI hl
    obtain ⟨hr1, hs1⟩ := ih1 report hI hl
    obtain ⟨hr2, hs2⟩ := ih2 report hI fun c h => hl c (h12.mem_iff.2 h)
    exact ⟨hr1.trans hr2, hs1.trans hs2⟩

end Store

namespace Action

theorem exec_foldlM_destroy {l : List Resource} (hl : ∀ c ∈ l, c.Plain) :
    ∀ {W : World} (report : Destruction), Inv W →
      (l.foldlM destroy report).exec W.store =
        (.ok (W.store.destroyAll report l).1, (W.store.destroyAll report l).2) := by
  induction l with
  | nil => exact fun _ _ => rfl
  | cons c l ih =>
    intro W report hI
    rw [List.foldlM_cons, exec_bind, exec_destroy_of_inv hI rfl]
    exact ih (fun c' h' => hl c' (List.mem_cons_of_mem _ h')) _
      (hI.destroy (hl c List.mem_cons_self) report)

end Action

/-! ## Destroying a claim twice -/

namespace FileSystem.Disk

variable {d d' : Disk} {P : Place} {a i : String}

theorem reach_of_above {p : Place}
    (h : ∀ k, 0 < k → k < p.length → d'.node? (p.take k) = d.node? (p.take k))
    (hr : d.reach p = .ok ()) : d'.reach p = .ok () := by
  rw [reach_eq_ok] at hr ⊢
  intro k hk hkl
  rw [h k hk hkl]
  exact hr k hk hkl

theorem removeFile_again {p : Place} (hp : p ≠ []) (h : d.removeFile p = .ok d') :
    d'.removeFile p = .error .notFound := by
  unfold removeFile at h
  cases hl : d.lookup p with
  | error e => simp [hl, bind, Except.bind] at h
  | ok o =>
    obtain ⟨hr, rfl⟩ := lookup_eq_ok.1 hl
    rw [hl] at h
    obtain rfl : d' = d.drop p := by
      rcases hn : d.node? p with _ | _ | j <;> simp [hn, bind, Except.bind, throw, throwThe,
        MonadExceptOf.throw, pure, Except.pure] at h
      exact h.symm
    have hr' : (d.drop p).reach p = .ok () := reach_of_above (fun k _ hk => by
      rw [node?_drop, if_neg fun h => absurd h.1.length_le (by simp; omega)]) hr
    have hn' : (d.drop p).node? p = none := by rw [node?_drop, if_pos ⟨List.prefix_refl p, hp⟩]
    simp [removeFile, lookup, hr', hn', bind, Except.bind, throw, throwThe, MonadExceptOf.throw,
      pure, Except.pure]

theorem removeStep_again {p : Place} (hp : p ≠ []) (d : Disk) :
    removeStep p (removeStep p d).2 =
      if (removeStep p d).1 = .ok true then (.ok false, (removeStep p d).2) else removeStep p d := by
  unfold removeStep
  cases h : d.removeFile p with
  | ok d' => simp [settle, removeFile_again hp h]
  | error e => cases e <;> simp [settle, h]

/-- Once an entry moved from `P ++ [i]` into the archive directory, moving it again finds nothing:
the ways to both ends are still walked, and the entry's place holds nothing. -/
theorem rename_again (h : d.rename (P ++ [i]) (P ++ [a, i]) = .ok d') :
    d'.rename (P ++ [i]) (P ++ [a, i]) = .error .notFound ∧
      (d'.stat (P ++ [i])).toOption.isSome = false := by
  obtain ⟨hrd, -, hcase⟩ := rename_eq_ok h
  have hrs := reach_of_rename_ok h
  rcases hcase with ⟨heq, -⟩ | ⟨hpre, -, -, hnode⟩
  · simp at heq
  -- a place above either end lies below neither, so it holds what it held
  have habove : ∀ q : Place, q ≠ [] → q <+: P ++ [a, i] → q.length < (P ++ [a, i]).length →
      d'.node? q = d.node? q := fun q hq hqD hlen => by
    rw [hnode q hq, if_neg fun h => absurd h.length_le (by omega),
      if_neg fun h => hpre (h.trans hqD)]
  have hL : d'.node? (P ++ [i]) = none := by
    rw [hnode _ (by simp), if_neg fun h => absurd h.length_le (by simp),
      if_pos (List.prefix_refl _)]
  have hrs' : d'.reach (P ++ [i]) = .ok () := by
    refine reach_of_above (fun k hk hkl => ?_) hrs
    simp only [List.length_append, List.length_singleton] at hkl
    rw [hnode _ (by simp; omega), if_neg fun h => absurd h.length_le
      (by simp only [List.length_take, List.length_append, List.length_cons, List.length_nil]; omega),
      if_neg fun h => absurd h.length_le (by simp; omega)]
  have hrd' : d'.reach (P ++ [a, i]) = .ok () := by
    refine reach_of_above (fun k hk hkl => ?_) hrd
    simp only [List.length_append, List.length_cons, List.length_nil] at hkl
    exact habove _ (by simp; omega) (List.take_prefix _ _) (by simp; omega)
  refine ⟨?_, ?_⟩
  · simp [rename, hrs', hrd', hL, bind, Except.bind, throw, throwThe, MonadExceptOf.throw]
  · rw [Bool.eq_false_iff, Ne, stat_isSome]
    exact fun h => h.2 hL

/-- An archiving step either moved the entry, by a move from some disk, or moved nothing and left
the disk as it was. -/
theorem archiveStep_cases (d : Disk) :
    (∃ e d' : Disk, e.rename (P ++ [i]) (P ++ [a, i]) = .ok d' ∧
        archiveStep (P ++ [i]) (P ++ [a]) (P ++ [a, i]) d = (.ok true, d')) ∨
      ((archiveStep (P ++ [i]) (P ++ [a]) (P ++ [a, i]) d).2 = d ∧
        (archiveStep (P ++ [i]) (P ++ [a]) (P ++ [a, i]) d).1 ≠ .ok true) := by
  unfold archiveStep
  split
  · next d' hmv => exact .inl ⟨d, d', hmv, rfl⟩
  · -- nothing at the entry's place, or no way to the archive directory
    split
    · split
      · next d2 h2 =>
        obtain ⟨d1, h1⟩ : ∃ d1 : Disk, d1.rename (P ++ [i]) (P ++ [a, i]) = .ok d2 := by
          cases hm : d.makeDirs (P ++ [a]) with
          | error e => simp [hm, bind, Except.bind] at h2
          | ok d1 => exact ⟨d1, by simpa [hm, bind, Except.bind] using h2⟩
        exact .inl ⟨d1, d2, h1, rfl⟩
      · exact .inr ⟨rfl, by simp⟩
    · exact .inr ⟨rfl, by simp⟩
  · exact .inr ⟨rfl, by simp⟩

theorem archiveStep_again (d : Disk) :
    archiveStep (P ++ [i]) (P ++ [a]) (P ++ [a, i]) (archiveStep (P ++ [i]) (P ++ [a]) (P ++ [a, i]) d).2 =
      if (archiveStep (P ++ [i]) (P ++ [a]) (P ++ [a, i]) d).1 = .ok true then
        (.ok false, (archiveStep (P ++ [i]) (P ++ [a]) (P ++ [a, i]) d).2)
      else archiveStep (P ++ [i]) (P ++ [a]) (P ++ [a, i]) d := by
  rcases archiveStep_cases d with ⟨e, d', hmv, hd⟩ | ⟨hd, hv⟩
  · rw [hd, if_pos rfl]
    obtain ⟨hmv', hst⟩ := rename_again hmv
    simp [archiveStep, hmv', hst]
  · rw [if_neg hv, hd]

end FileSystem.Disk

theorem reclaimStep_again {box : Container} {p : Place} {r : Resource}
    (hp : place? box.root = some p) (hr : r.Plain) (archiving : Bool) (d : Disk) :
    reclaimStep archiving (box.claimPath r) (reclaimStep archiving (box.claimPath r) d).2 =
      if (reclaimStep archiving (box.claimPath r) d).1 = .ok true then
        (.ok false, (reclaimStep archiving (box.claimPath r) d).2)
      else reclaimStep archiving (box.claimPath r) d := by
  cases archiving
  · simp only [reclaimStep_remove hp hr]
    exact removeStep_again (by simp [livePlace]) d
  · by_cases hsec : r.sectionName = Archive.dirName
    · simp [reclaimStep_of_archived hp hr hsec]
    · simp only [reclaimStep_archive hp hr hsec]
      exact archiveStep_again d

namespace Store

variable (s : Store) (c : Resource) (archiving : Bool)

theorem course_reclaimed_self {path : String} (h : s.repo.course c = .begun path)
    (x : Except IoError Bool × Disk) : (s.reclaimed c archiving x).repo.course c = .begun path := by
  obtain ⟨-, -, -, hb⟩ := Repo.course_eq_begun h
  rw [← h]
  refine Repo.course_congr (claimPath_reclaimed s c archiving x c) (settings_reclaimed s c archiving x) ?_
  rw [tracker_reclaimed, hb, Tracker.beginDestruction_erase_self _ _ (by split <;> simp)]

theorem reclaimed_again (x y : Except IoError Bool × Disk) (hd : y.2 = x.2)
    (hy : countsArchived archiving y.1 = false) :
    (s.reclaimed c archiving x).reclaimed c archiving y = s.reclaimed c archiving x := by
  unfold reclaimed
  simp only [hy, hd, Bool.false_eq_true, if_false]
  cases countsArchived archiving x.1 <;>
    simp [Repo.countArchived_with_tracker, Tracker.erase_erase]

end Store

/-- Destroying a forgotten claim along its path again, when its step on the disk finds nothing
after a file was archived or removed and otherwise ends as the first step did. -/
theorem Store.destroyed_again (s : Store) (c : Resource) (report r : Destruction) (path : String)
    {archiving : Bool} (ha : s.repo.settings.archiveEnabled = archiving)
    (x : Except IoError Bool × Disk)
    (hagain : reclaimStep archiving path x.2 = if x.1 = .ok true then (.ok false, x.2) else x) :
    (s.reclaimed c archiving x).destroyed r c (.begun path) =
      (if (report.tally archiving x.1).failed = report.failed + 1 then
          { r with failed := r.failed + 1 }
        else { r with skipped := r.skipped + 1 },
        s.reclaimed c archiving x) := by
  simp only [destroyed, settings_reclaimed, ha]
  rw [show (s.reclaimed c archiving x).host.disk = x.2 from rfl, hagain]
  obtain ⟨v, d⟩ := x
  rcases v with e | _ | _
  · -- the step failed and left the disk: the claim fails again
    simp only [reduceCtorEq, if_false]
    rw [reclaimed_again s c archiving _ _ rfl rfl]
    simp [Destruction.tally]
  · -- nothing was there: the claim is skipped again
    simp only [if_false, Except.ok.injEq, Bool.false_eq_true]
    rw [reclaimed_again s c archiving _ _ rfl (by cases archiving <;> rfl)]
    simp [Destruction.tally]
  · -- the file was archived or removed: the second step finds nothing
    simp only [if_true]
    rw [reclaimed_again s c archiving (.ok true, d) (.ok false, d) rfl (by cases archiving <;> rfl)]
    cases archiving <;> simp [Destruction.tally]

theorem Inv.destroy_again {W : World} (hI : Inv W) {c : Resource} (hc : c.Plain)
    (report r : Destruction) :
    (W.store.destroy report c).2.destroy r c =
      (if (W.store.destroy report c).1.failed = report.failed + 1 then
          { r with failed := r.failed + 1 }
        else { r with skipped := r.skipped + 1 },
        (W.store.destroy report c).2) := by
  unfold Store.destroy
  cases hk : W.store.repo.course c with
  | unknown => simp [Store.destroyed, hk]
  | refused => simp [Store.destroyed, hk]
  | begun path =>
    obtain ⟨box, -, -, ⟨p, hp⟩, rfl⟩ := hI.course_begun hk
    simp only [Store.destroyed]
    rw [Store.course_reclaimed_self _ _ _ hk]
    exact W.store.destroyed_again c report r _ rfl _ (reclaimStep_again hp hc _ _)

/-! ## Destroying in any order, and again -/

namespace Action

/-- Destroying claims gives one outcome, whatever their order and however often a claim comes. In
every reachable world, where container names are distinct and roots neither shared nor nested,
any two orders of a list of plain claims, none named like the archive directory while archiving,
end with the same report and alike stores: the same repository (tracker, containers and their
archived counts), the same clock, streams and cells, and disks holding the same tree. Destroying a
claim again right after changes nothing: the copy is skipped, or fails again when the first
destruction failed. -/
theorem destroy_order_irrelevant {W : World} (hI : Inv W) :
    (∀ {l l' : List Resource}, l.Perm l' →
      (∀ c ∈ l, c.Plain ∧ (W.store.repo.settings.archiveEnabled = true → c.id ≠ Archive.dirName)) →
      ∀ report : Destruction,
        ((l.foldlM destroy report).exec W.store).1 = ((l'.foldlM destroy report).exec W.store).1 ∧
          ((l.foldlM destroy report).exec W.store).2.Same
            ((l'.foldlM destroy report).exec W.store).2) ∧
    (∀ c : Resource, c.Plain → ∀ report : Destruction,
      (destroy report c >>= fun r => destroy r c).exec W.store =
        (destroy report c >>= fun r => pure (if r.failed = report.failed + 1 then
          { r with failed := r.failed + 1 } else { r with skipped := r.skipped + 1 })).exec W.store) := by
  refine ⟨fun {l l'} hp hl report => ?_, fun c hc report => ?_⟩
  · -- both orders run as destroyAll, whose outcome a permutation keeps
    have hl' : ∀ c ∈ l', c.Plain := fun c h => (hl c (hp.mem_iff.2 h)).1
    rw [exec_foldlM_destroy (fun c h => (hl c h).1) report hI, exec_foldlM_destroy hl' report hI]
    obtain ⟨hr, hs⟩ := Store.destroyAll_perm hp report hI hl
    exact ⟨by simp only [hr], hs⟩
  · rw [exec_bind, exec_bind, exec_destroy_of_inv hI rfl]
    dsimp only
    rw [exec_destroy_of_inv (hI.destroy hc report) rfl, hI.destroy_again hc]
    rfl

end Action

/-! ## Two claims of a repository over a disk -/

/-- A fresh disk where the root `c` holds its section directory `0` with the file `x`, holding
`abc`. -/
def liveDisk : Disk :=
  ⟨Disk.fresh.nodes ++ [(["work", "c"], .dir), (["work", "c", "0"], .dir),
    (["work", "c", "0", "x"], .file 0)], #[⟨⟨#[97, 98, 99]⟩, 0⟩]⟩

/-- The repository of `archivingSettings` opened over `liveDisk`. -/
def liveWorld : World := (World.launch archivingSettings 8 (Probe.Script.probe {}) liveDisk 0).get (by decide +kernel)

theorem ne_formatId_of_no_dash (name : String) (h : '-' ∉ name.toList) (t j : Nat) :
    name ≠ formatId t j := by
  intro heq
  have hdash : '-' ∈ (formatId t j).toList := by simp [formatId]
  rw [← heq] at hdash
  exact h hdash

theorem liveWorld_reachable : Reachable liveWorld := by
  refine .opened ⟨by decide, by decide, by decide⟩ (Disk.Sound.of_nodes (by decide +kernel))
    ⟨by simp [archivingSettings, pooledSettings], ?_⟩ (Option.some_get _).symm
  simp only [archivingSettings, pooledSettings, List.mem_singleton, forall_eq]
  intro p hp sec t j _ _
  rw [show place? "c" = some ["work", "c"] by decide] at hp
  cases hp
  have hx := ne_formatId_of_no_dash "x" (by decide) t j
  constructor
  · rw [Disk.node?_of_ne_nil _ (by simp), Option.map_eq_none_iff, List.find?_eq_none]
    simp [liveDisk, Disk.fresh, scratchPlace, workPlace, hx]
  · -- nothing lies three names below the root
    rw [Disk.node?_of_ne_nil _ (by simp), Option.map_eq_none_iff, List.find?_eq_none]
    simp [liveDisk, Disk.fresh, scratchPlace, workPlace]

/-- The claim of the file `x` in section `0`. -/
def liveClaim : Resource := ⟨"default", "0", "x", false⟩

/-- A claim of section `0` with no file. -/
def missingClaim : Resource := ⟨"default", "0", "y", false⟩

/-- Archiving the file of `liveClaim` and skipping `missingClaim` give one outcome in either order,
and destroying `liveClaim` twice skips the copy. -/
theorem live_and_missing_claims_any_order :
    Inv liveWorld ∧
      ((([liveClaim, missingClaim].foldlM Action.destroy {}).exec liveWorld.store).1 =
          (([missingClaim, liveClaim].foldlM Action.destroy {}).exec liveWorld.store).1 ∧
        (([liveClaim, missingClaim].foldlM Action.destroy {}).exec liveWorld.store).2.Same
          (([missingClaim, liveClaim].foldlM Action.destroy {}).exec liveWorld.store).2) ∧
      (Action.destroy {} liveClaim >>= fun r => Action.destroy r liveClaim).exec liveWorld.store =
        (Action.destroy {} liveClaim >>= fun r => pure (if r.failed = ({} : Destruction).failed + 1 then
          { r with failed := r.failed + 1 } else { r with skipped := r.skipped + 1 })).exec
          liveWorld.store := by
  have hI := liveWorld_reachable.inv
  have hplain : ∀ c ∈ [liveClaim, missingClaim], c.Plain ∧
      (liveWorld.store.repo.settings.archiveEnabled = true → c.id ≠ Archive.dirName) := by
    simp only [List.mem_cons, List.not_mem_nil, or_false, forall_eq_or_imp, forall_eq]
    exact ⟨⟨⟨by decide, by decide⟩, fun _ => by decide⟩, ⟨⟨by decide, by decide⟩, fun _ => by decide⟩⟩
  exact ⟨hI, (Action.destroy_order_irrelevant hI).1 (.swap _ _ _) hplain {},
    (Action.destroy_order_irrelevant hI).2 liveClaim (hplain liveClaim (by simp)).1 {}⟩

/-- `liveDisk` where a file `archive` stands in section `0`, in place of its archive directory. -/
def blockedDisk : Disk :=
  ⟨Disk.fresh.nodes ++ [(["work", "c"], .dir), (["work", "c", "0"], .dir),
    (["work", "c", "0", "x"], .file 0), (["work", "c", "0", Archive.dirName], .file 1)],
    #[⟨⟨#[97, 98, 99]⟩, 0⟩, ⟨⟨#[120]⟩, 0⟩]⟩

/-- The repository of `archivingSettings` opened over `blockedDisk`. -/
def blockedWorld : World :=
  (World.launch archivingSettings 8 (Probe.Script.probe {}) blockedDisk 0).get (by decide +kernel)

theorem blockedWorld_reachable : Reachable blockedWorld := by
  refine .opened ⟨by decide, by decide, by decide⟩ (Disk.Sound.of_nodes (by decide +kernel))
    ⟨by simp [archivingSettings, pooledSettings], ?_⟩ (Option.some_get _).symm
  simp only [archivingSettings, pooledSettings, List.mem_singleton, forall_eq]
  intro p hp sec t j _ _
  rw [show place? "c" = some ["work", "c"] by decide] at hp
  cases hp
  have hx := ne_formatId_of_no_dash "x" (by decide) t j
  have ha := ne_formatId_of_no_dash Archive.dirName (by decide) t j
  constructor
  · rw [Disk.node?_of_ne_nil _ (by simp), Option.map_eq_none_iff, List.find?_eq_none]
    simp [blockedDisk, Disk.fresh, scratchPlace, workPlace, hx, ha]
  · -- nothing lies three names below the root
    rw [Disk.node?_of_ne_nil _ (by simp), Option.map_eq_none_iff, List.find?_eq_none]
    simp [blockedDisk, Disk.fresh, scratchPlace, workPlace]

/-- A claim of section `0` named like the archive directory. -/
def archiveNamedClaim : Resource := ⟨"default", "0", Archive.dirName, false⟩

/-- With archiving on, order and copies show in the report. Destroyed after `liveClaim`, the claim
named like the archive directory fails, as its path is then the archive directory, which cannot
move into itself; destroyed first it finds nothing and is skipped. And where a file stands in
place of the archive directory, the file of `liveClaim` cannot be archived: both copies of the
claim fail. -/
theorem destruction_order_and_copies_seen :
    Inv liveWorld ∧ Inv blockedWorld ∧
      (([liveClaim, archiveNamedClaim].foldlM Action.destroy {}).exec liveWorld.store).1 =
        .ok { archived := 1, failed := 1 } ∧
      (([archiveNamedClaim, liveClaim].foldlM Action.destroy {}).exec liveWorld.store).1 =
        .ok { archived := 1, skipped := 1 } ∧
      (([liveClaim, liveClaim].foldlM Action.destroy {}).exec blockedWorld.store).1 =
        .ok { failed := 2 } :=
  ⟨liveWorld_reachable.inv, blockedWorld_reachable.inv, by decide +kernel, by decide +kernel,
    by decide +kernel⟩

end ClaimStore
