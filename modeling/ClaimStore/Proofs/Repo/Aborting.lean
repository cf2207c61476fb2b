import ClaimStore.Proofs.Tracker.Undoing
import ClaimStore.Proofs.Repo.InUse
/-!
# A failed destruction puts the claim back

Archiving or removing a claim touches its file only after the tracker has let its destruction
begin, and by then the claim's stream has been retired. When the file operation fails, the
destruction is undone: the disk is as it was, every record reads as before and the claim may be
destroyed again later. The retired stream is the one trace left.

A round of destruction is a sequence of such attempts over the claims the tracker queued and the
claims in the containers' bins. Every attempt leaves the tracker in one of the shapes
`Tracker.Destroys` lists, so a round keeps what those shapes keep: a claim without a record
stays without one, and the queue, handed over whole at the start, stays empty.
-/

set_option autoImplicit false

namespace ClaimStore

open ClaimStore.Claim ClaimStore.FileSystem

namespace Action

variable (s : Store) {r : Resource}

theorem exec_retireStream (c : Resource) : (retireStream c none).exec s =
    (.ok (), { repo := { s.repo with streams := s.repo.streams.filter (·.1 != c.key) },
               host := (s.repo.streamOf? c).elim s.host s.host.close }) := by
  cases hn : s.repo.streamOf? c with
  | some n => exact exec_retireStream_of_some s c hn none (.inl rfl)
  | none =>
    have hkeep : s.repo.streams.filter (·.1 != c.key) = s.repo.streams := by
      refine List.filter_eq_self.2 fun e he => ?_
      have hreg := (Repo.streamOf?_eq_none _ _).1 hn
      have : e.1 ≠ c.key := fun h => by
        rw [← Bool.not_eq_true, Repo.registered_iff] at hreg
        exact hreg ⟨e.2, h ▸ he⟩
      simpa using this
    rw [exec_retireStream_of_none s c hn, hkeep]
    rfl

/-- Archiving fails on a file operation only after the claim's destruction began and its stream
was retired; the failure undoes the destruction. -/
theorem archive_io_error {e : IoError} {s' : Store} (h : (archive r).exec s = (.error (.io e), s')) :
    ∃ box, s.repo.container? r.container = some box ∧
      (s.repo.tracker.beginDestruction r .archived).1 = true ∧
      archiveFile s.host.disk (box.claimPath r) = .error e ∧
      s' = { repo := { s.repo with streams := s.repo.streams.filter (·.1 != r.key),
                                   tracker := (s.repo.tracker.beginDestruction r .archived).2.abortDestruction r },
             host := (s.repo.streamOf? r).elim s.host s.host.close } := by
  have hdisk : ((s.repo.streamOf? r).elim s.host s.host.close).disk = s.host.disk := by
    cases s.repo.streamOf? r <;> rfl
  unfold archive at h
  simp only [exec_bind, exec_repo] at h
  cases ha : s.repo.settings.archiveEnabled
  · simp [ha] at h
  simp only [ha, Bool.not_true, Bool.false_eq_true, ↓reduceIte, exec_bind, exec_container] at h
  cases hbox : s.repo.container? r.container with
  | none => simp [hbox] at h
  | some box =>
    simp only [hbox, exec_tracking] at h
    cases hb : (s.repo.tracker.beginDestruction r .archived).1
    · simp [hb] at h
    have hn : ({ s.repo with tracker := (s.repo.tracker.beginDestruction r .archived).2 } : Repo).streamOf? r =
        s.repo.streamOf? r := rfl
    simp only [hb, Bool.not_true, Bool.false_eq_true, ↓reduceIte, exec_bind, exec_retireStream,
      exec_host, hn, hdisk] at h
    refine ⟨box, rfl, rfl, ?_⟩
    split at h
    · next moved d hmv =>
      -- a file that moved, or nothing to move, is no failure
      have hfind : s.repo.containers.find? (·.name == r.container) = some box := hbox
      cases moved <;>
        simp [exec_bind, exec_map, exec_container, Repo.container?, hfind, setContainer] at h
    · next e' he =>
      simp only [exec_bind, exec_track, exec_throw, Prod.mk.injEq, Except.error.injEq,
        StoreError.io.injEq] at h
      obtain ⟨rfl, rfl⟩ := h
      exact ⟨he, rfl⟩

/-- Removing fails on a file operation only after the claim's destruction began and its stream
was retired; a file already gone is no failure, and any other failure undoes the destruction. -/
theorem removeResource_io_error {e : IoError} {s' : Store}
    (h : (removeResource r).exec s = (.error (.io e), s')) :
    ∃ box, s.repo.container? r.container = some box ∧
      (s.repo.tracker.beginDestruction r .removed).1 = true ∧
      s.host.disk.removeFileAt (box.claimPath r) = .error e ∧ e ≠ .notFound ∧
      s' = { repo := { s.repo with streams := s.repo.streams.filter (·.1 != r.key),
                                   tracker := (s.repo.tracker.beginDestruction r .removed).2.abortDestruction r },
             host := (s.repo.streamOf? r).elim s.host s.host.close } := by
  have hdisk : ((s.repo.streamOf? r).elim s.host s.host.close).disk = s.host.disk := by
    cases s.repo.streamOf? r <;> rfl
  unfold removeResource at h
  simp only [exec_bind, exec_container] at h
  cases hbox : s.repo.container? r.container with
  | none => simp [hbox] at h
  | some box =>
    simp only [hbox, exec_tracking] at h
    cases hb : (s.repo.tracker.beginDestruction r .removed).1
    · simp [hb] at h
    have hn : ({ s.repo with tracker := (s.repo.tracker.beginDestruction r .removed).2 } : Repo).streamOf? r =
        s.repo.streamOf? r := rfl
    simp only [hb, Bool.not_true, Bool.false_eq_true, ↓reduceIte, exec_bind, exec_retireStream,
      exec_host, hn, hdisk] at h
    refine ⟨box, rfl, rfl, ?_⟩
    split at h
    · simp [exec_bind, exec_map] at h
    · simp [exec_map] at h
    · next e' hnf he =>
      simp only [exec_bind, exec_track, exec_throw, Prod.mk.injEq, Except.error.injEq,
        StoreError.io.injEq] at h
      obtain ⟨rfl, rfl⟩ := h
      exact ⟨he, hnf, rfl⟩

/-- An undone destruction: the claim's stream retired, its record forgotten, nothing else. -/
theorem restored_of_abort {target : Lifecycle} (hb : (s.repo.tracker.beginDestruction r target).1 = true)
    {s' : Store}
    (hs' : s' = { repo := { s.repo with streams := s.repo.streams.filter (·.1 != r.key),
                                        tracker := (s.repo.tracker.beginDestruction r target).2.abortDestruction r },
                  host := (s.repo.streamOf? r).elim s.host s.host.close }) :
    s'.host.disk = s.host.disk ∧
      (∀ k, s'.repo.tracker.record k = s.repo.tracker.record k) ∧
      s'.repo.tracker.find? r.key = none ∧
      s'.repo.tracker.queue = s.repo.tracker.queue ∧
      s'.repo.containers = s.repo.containers ∧
      (s'.repo.tracker.beginDestruction r .archived).1 = true ∧
      (s'.repo.tracker.beginDestruction r .removed).1 = true ∧
      { s' with repo := { s'.repo with tracker := s.repo.tracker } } =
        ((retireStream r none).exec s).2 := by
  subst hs'
  have hrec := fun k => Tracker.record_abort_of_begin s.repo.tracker r k hb
  obtain ⟨hzero, hfrozen, -⟩ := (Tracker.beginDestruction_fst _ _ _).1 hb
  have hagain : ∀ target', target' = .archived ∨ target' = .removed →
      (((s.repo.tracker.beginDestruction r target).2.abortDestruction r).beginDestruction r target').1 = true :=
    fun target' ht => (Tracker.beginDestruction_fst _ _ _).2 ⟨by rw [hrec, hzero], by rw [hrec, hfrozen], ht⟩
  refine ⟨by cases s.repo.streamOf? r <;> rfl, hrec, by simp [Tracker.find?_abort_of_begin _ _ _ hb],
    by rw [Tracker.queue_abortDestruction_eq, Tracker.queue_beginDestruction_eq], rfl,
    hagain _ (.inl rfl), hagain _ (.inr rfl), ?_⟩
  rw [exec_retireStream]

theorem exec_archive_of_inUse {box : Container} (hbox : s.repo.container? r.container = some box)
    (hu : s.repo.tracker.inUse r = true) : (archive r).exec s = (.ok false, s) := by
  cases ha : s.repo.settings.archiveEnabled
  · exact exec_archive_of_off s ha
  · have hb := Tracker.beginDestruction_of_inUse _ _ hu .archived
    rw [exec_archive_of_not_begin s ha hbox (by rw [hb]), hb]

theorem exec_removeResource_of_inUse {box : Container} (hbox : s.repo.container? r.container = some box)
    (hu : s.repo.tracker.inUse r = true) : (removeResource r).exec s = (.ok false, s) := by
  have hb := Tracker.beginDestruction_of_inUse _ _ hu .removed
  rw [exec_removeResource_of_not_begin s hbox (by rw [hb]), hb]

end Action

/-- A failed archive or removal of a claim puts the claim back. Its file and the whole disk are
as they were; every claim's record reads as before and the claim has none, as a frozen claim
without claimants needs none; the destruction queue and the containers, archived-file counts
included, are unchanged; and a later archive or removal may begin again. The one other change
is that the claim's stream, if it had one, has been retired. A claim in use is neither archived
nor removed, and then nothing changes at all. -/
theorem failed_destruction_restores_claim (s : Store) (r : Resource) :
    (∀ (e : IoError) (s' : Store),
      ((Action.archive r).exec s = (.error (.io e), s') ∨
        (Action.removeResource r).exec s = (.error (.io e), s')) →
      s'.host.disk = s.host.disk ∧
        (∀ k, s'.repo.tracker.record k = s.repo.tracker.record k) ∧
        s'.repo.tracker.find? r.key = none ∧
        s'.repo.tracker.queue = s.repo.tracker.queue ∧
        s'.repo.containers = s.repo.containers ∧
        (s'.repo.tracker.beginDestruction r .archived).1 = true ∧
        (s'.repo.tracker.beginDestruction r .removed).1 = true ∧
        { s' with repo := { s'.repo with tracker := s.repo.tracker } } =
          ((Action.retireStream r none).exec s).2) ∧
    ((s.repo.container? r.container).isSome → s.repo.tracker.inUse r = true →
      (Action.archive r).exec s = (.ok false, s) ∧
        (Action.removeResource r).exec s = (.ok false, s)) := by
  refine ⟨fun e s' hfail => ?_, fun hknown hu => ?_⟩
  · rcases hfail with h | h
    · obtain ⟨-, -, hb, -, hs'⟩ := Action.archive_io_error s h
      exact Action.restored_of_abort s hb hs'
    · obtain ⟨-, -, hb, -, -, hs'⟩ := Action.removeResource_io_error s h
      exact Action.restored_of_abort s hb hs'
  · obtain ⟨box, hbox⟩ := Option.isSome_iff_exists.1 hknown
    exact ⟨Action.exec_archive_of_inUse s hbox hu, Action.exec_removeResource_of_inUse s hbox hu⟩

/-! ## Destruction blocked on the disk -/

/-- The pooled repository after its first claim was created, with a directory standing at the
place of a claim `x` of its section. -/
def blockedStore : Store :=
  let s := (pooledWorld.step (.create false)).store
  { s with host := { s.host with disk := s.host.disk.set ["work", "c", "0", "x"] .dir } }

/-- The claim `x` of the pooled repository's section, whose place holds a directory in
`blockedStore`. -/
def blockedClaim : Resource := ⟨"default", "0", "x", false⟩

/-- Removing a claim whose place holds a directory fails and may begin again later; the claim
being written is not removed, and nothing changes. -/
theorem directory_in_place_blocks_removal :
    (Action.removeResource blockedClaim).exec blockedStore =
        (.error (.io .isADirectory), ((Action.removeResource blockedClaim).exec blockedStore).2) ∧
      ((Action.removeResource blockedClaim).exec blockedStore).2.host.disk = blockedStore.host.disk ∧
      (((Action.removeResource blockedClaim).exec blockedStore).2.repo.tracker.beginDestruction
        blockedClaim .removed).1 = true ∧
      (Action.removeResource firstResource).exec blockedStore = (.ok false, blockedStore) := by
  have hfail : (Action.removeResource blockedClaim).exec blockedStore =
      (.error (.io .isADirectory), ((Action.removeResource blockedClaim).exec blockedStore).2) :=
    Prod.ext (by decide +kernel) rfl
  obtain ⟨hdisk, -, -, -, -, -, hagain, -⟩ :=
    (failed_destruction_restores_claim blockedStore blockedClaim).1 _ _ (.inr hfail)
  exact ⟨hfail, hdisk, hagain, ((failed_destruction_restores_claim blockedStore firstResource).2
    (by decide +kernel) (by decide +kernel)).2⟩

/-- The pooled repository with archiving switched on after its first claim was created, frozen
through the tracker and released while its stream stays open, and with a file named `archive`
in its section. -/
def frozenStreamStore : Store :=
  let s := (pooledWorld.step (.create false)).store
  let (i, d) := s.host.disk.allocate ⟨#[120]⟩ 0
  { repo := { s.repo with settings := { s.repo.settings with archiveEnabled := true },
                          tracker := ((s.repo.tracker.freeze firstResource).2.decrement firstResource).2 },
    host := { s.host with disk := d.set ["work", "c", "0", Archive.dirName] (.file i) } }

/-- A failed archive is not without trace: it closes the stream of a claim frozen through the
tracker while its stream was open. -/
theorem failed_archive_closes_stream :
    ((Action.archive firstResource).exec frozenStreamStore).1 = .error (.io .notADirectory) ∧
      frozenStreamStore.repo.streamOf? firstResource = some 0 ∧
      ((Action.archive firstResource).exec frozenStreamStore).2.repo.streamOf? firstResource = none ∧
      (((Action.archive firstResource).exec frozenStreamStore).2.host.stream 0).closed = true := by
  decide +kernel

/-! ## A round of destruction forgets -/

namespace Action

theorem destroys_archive (c : Resource) (s : Store) :
    Tracker.Destroys s.repo.tracker c .archived ((archive c).exec s).2.repo.tracker := by
  unfold archive
  simp only [exec_bind, exec_repo]
  cases ha : s.repo.settings.archiveEnabled
  · simpa [ha] using .untouched
  simp only [Bool.not_true, Bool.false_eq_true, ↓reduceIte, exec_bind, exec_container]
  cases hbox : s.repo.container? c.container with
  | none => simpa using .untouched
  | some box =>
    simp only [exec_tracking]
    cases hb : (s.repo.tracker.beginDestruction c .archived).1
    · simpa [hb] using .refused hb
    simp only [Bool.not_true, Bool.false_eq_true, ↓reduceIte, exec_bind, exec_retireStream,
      exec_host]
    split
    · have hfind : s.repo.containers.find? (·.name == c.container) = some box := hbox
      next moved d _ =>
      cases moved <;>
        simpa [exec_bind, exec_map, exec_container, Repo.container?, hfind, setContainer] using
          .finished hb
    · simpa [exec_bind] using .undone hb

theorem destroys_removeResource (c : Resource) (s : Store) :
    Tracker.Destroys s.repo.tracker c .removed ((removeResource c).exec s).2.repo.tracker := by
  unfold removeResource
  simp only [exec_bind, exec_container]
  cases hbox : s.repo.container? c.container with
  | none => simpa using .untouched
  | some box =>
    simp only [exec_tracking]
    cases hb : (s.repo.tracker.beginDestruction c .removed).1
    · simpa [hb] using .refused hb
    simp only [Bool.not_true, Bool.false_eq_true, ↓reduceIte, exec_bind, exec_retireStream,
      exec_host]
    split
    · simpa [exec_bind] using .finished hb
    · simpa [exec_bind] using .finished hb
    · simpa [exec_bind] using .undone hb

/-- An action leaves a property of the store holding. -/
def Preserves {α : Type} (P : Store → Prop) (a : Action α) : Prop := ∀ s, P s → P (a.exec s).2

namespace Preserves

variable {α β γ : Type} {P : Store → Prop}

theorem of_snd {a : Action α} (h : ∀ s, (a.exec s).2 = s) : a.Preserves P := fun s hs => by
  rw [h]
  exact hs

protected theorem pure (x : α) : (pure x : Action α).Preserves P := of_snd fun _ => rfl

protected theorem bind {x : Action α} {f : α → Action β} (hx : x.Preserves P)
    (hf : ∀ a, (f a).Preserves P) : (x >>= f).Preserves P := by
  intro s hs
  have h := hx s hs
  rw [exec_bind]
  rcases hr : x.exec s with ⟨_ | a, s'⟩
  · rw [hr] at h
    exact h
  · rw [hr] at h
    exact hf a s' h

protected theorem attempt {a : Action α} (ha : a.Preserves P) : (attempt a).Preserves P := by
  intro s hs
  rw [exec_attempt]
  exact ha s hs

protected theorem foldlM {f : β → γ → Action β} {l : List γ} (hf : ∀ b x, (f b x).Preserves P)
    (init : β) : (l.foldlM f init).Preserves P := by
  induction l generalizing init with
  | nil => exact Preserves.pure init
  | cons x l ih =>
    rw [List.foldlM_cons]
    exact (hf init x).bind ih

end Preserves

section Destruction

variable {P : Tracker → Prop} (hP : Tracker.DestroyStable P)
include hP

theorem preserves_destroy (report : Destruction) (c : Resource) :
    (destroy report c).Preserves (P ·.repo.tracker) := by
  unfold destroy
  refine Preserves.bind (.of_snd fun _ => rfl) fun rp => .bind (.attempt fun s hs => ?_) fun o => ?_
  · split
    · exact hP _ _ _ _ (destroys_archive c s) hs
    · exact hP _ _ _ _ (destroys_removeResource c s) hs
  · split <;> exact .pure _

theorem preserves_archiveOrDestroy (report : Destruction) (name : String) :
    (archiveOrDestroy report name).Preserves (P ·.repo.tracker) := by
  intro s hs
  unfold archiveOrDestroy
  rw [exec_bind, exec_container]
  cases s.repo.container? name with
  | none => exact hs
  | some box =>
    dsimp only
    rw [setContainer, exec_bind, exec_modifyRepo]
    exact Preserves.foldlM (preserves_destroy hP) _ _ hs

end Destruction

theorem runDestruction_forgets (s : Store) {k : ClaimKey} (hk : s.repo.tracker.find? k = none) :
    (runDestruction.exec s).2.repo.tracker.find? k = none ∧
      (runDestruction.exec s).2.repo.tracker.queue.items = [] := by
  have hP : Tracker.DestroyStable fun t => t.find? k = none ∧ t.queue.items = [] :=
    fun _ _ _ _ hd ⟨hf, hq⟩ => ⟨hd.find? hf, by rw [hd.queue, hq]⟩
  unfold runDestruction
  rw [exec_bind, exec_repo]
  simp only [Tracker.drainDestructable]
  rw [exec_bind, exec_modifyRepo]
  refine Preserves.bind (Preserves.foldlM (preserves_destroy hP) {}) (fun report =>
    Preserves.bind (.of_snd fun _ => rfl) fun _ => Preserves.foldlM (preserves_archiveOrDestroy hP)
      report) _ ⟨hk, ?_⟩
  simp [Fifo.drain, Tracker.pending, Fifo.size]

end Action

end ClaimStore
