import ClaimStore.Proofs.Repo.Keeping
/-!
# Destroying claims keeps the invariant

Removing and archiving a resource claim are guarded by the tracker: the destruction begins only
for a frozen claim without claimants, and a frozen claim has no stream (`Inv.writable`), so
retiring its stream does nothing; the destruction then finishes or is undone, and either way
the claim ends frozen, as it began. On the disk, removing unlinks the claim's file, and
archiving moves whatever lies at the claim's place to its archive place, making the archive
directory when it is missing.

From these two, every round of destruction (the queued claims, then each container's bin)
keeps the invariant, whatever succeeds or fails on the way.
-/

set_option autoImplicit false

namespace ClaimStore

open ClaimStore.Claim ClaimStore.FileSystem

theorem Repo.mem_of_container? {r : Repo} {name : String} {c : Container}
    (h : r.container? name = some c) : c ∈ r.containers ∧ c.name = name :=
  ⟨List.mem_of_find?_eq_some h, by simpa using List.find?_some h⟩

theorem placeOf_of_place? {t : String} {p : Place} (h : place? t = some p) :
    Disk.placeOf t = .ok p := by
  simp [Disk.placeOf, h]
  rfl

theorem isEmpty_of_place? {t : String} {p : Place} (h : place? t = some p) : t.isEmpty = false := by
  cases he : t.isEmpty
  · rfl
  · simp [place?, he] at h

section Places

variable {box : Container} {p : Place} {r : Resource}

theorem removeFileAt_claimPath (hp : place? box.root = some p) (hr : r.Plain) (d : Disk) :
    d.removeFileAt (box.claimPath r) = d.removeFile (livePlace p r) := by
  simp [Disk.removeFileAt, placeOf_of_place? (Container.claimPath_place hp hr), bind, Except.bind]

theorem renameAt_claimPath (hp : place? box.root = some p) (hr : r.Plain) (d : Disk) :
    d.renameAt (box.claimPath r) (box.archivePath r) = d.rename (livePlace p r) (archivePlace p r) := by
  simp [Disk.renameAt, placeOf_of_place? (Container.claimPath_place hp hr),
    placeOf_of_place? (Container.archivePath_place hp hr), bind, Except.bind]

theorem makeDirsAt_archiveDir (hp : place? box.root = some p) (hr : r.Plain) (d : Disk) :
    d.makeDirsAt (box.archiveDir r.sectionName) = d.makeDirs (p ++ [r.sectionName, Archive.dirName]) := by
  have hplace := Container.archiveDir_place hp hr.1
  simp [Disk.makeDirsAt, isEmpty_of_place? hplace, placeOf_of_place? hplace, bind, Except.bind]

/-- What `archiveFile` did: nothing, or it renamed the claim's file to its archive place, making
the archive directory first when it was missing. -/
theorem archiveFile_moved (hp : place? box.root = some p) (hr : r.Plain) {d d' : Disk}
    {moved : Bool} (h : archiveFile d (box.claimPath r) = .ok (moved, d')) :
    moved = false ∧ d' = d ∨ moved = true ∧ ∃ d0, d0.rename (livePlace p r) (archivePlace p r) = .ok d' ∧
      (d0 = d ∨ d.makeDirs (p ++ [r.sectionName, Archive.dirName]) = .ok d0) := by
  unfold archiveFile at h
  rw [Container.isArchived_claimPath hp hr, Container.pathFor?_claimPath hp hr] at h
  split at h
  · simp only [pure, Except.pure, Except.ok.injEq, Prod.mk.injEq] at h
    exact .inl ⟨h.1.symm, h.2.symm⟩
  simp only [renameAt_claimPath hp hr, Container.parent?_archivePath hp hr,
    makeDirsAt_archiveDir hp hr] at h
  split at h
  · next d2 hmv =>
    simp only [pure, Except.pure, Except.ok.injEq, Prod.mk.injEq] at h
    exact .inr ⟨h.1.symm, d, h.2 ▸ hmv, .inl rfl⟩
  · split at h
    · simp only [pure, Except.pure, Except.ok.injEq, Prod.mk.injEq] at h
      exact .inl ⟨h.1.symm, h.2.symm⟩
    · rcases hm : d.makeDirs (p ++ [r.sectionName, Archive.dirName]) with e | d1
      · simp [hm, bind, Except.bind] at h
      · rcases hmv : d1.rename (livePlace p r) (archivePlace p r) with e | d2
        · simp [hm, hmv, bind, Except.bind] at h
        · simp only [hm, hmv, bind, Except.bind, pure, Except.pure, Except.ok.injEq,
            Prod.mk.injEq] at h
          exact .inr ⟨h.1.symm, d1, h.2 ▸ hmv, .inr rfl⟩
  · cases h

/-- Archiving a claim's file: nothing moves, or what lies at the claim's place moves to its
archive place, the archive directory being made first when it is missing. -/
theorem archiveFile_cases (hp : place? box.root = some p) (hr : r.Plain) {d d' : Disk}
    {moved : Bool} (h : archiveFile d (box.claimPath r) = .ok (moved, d')) :
    d' = d ∨ d.rename (livePlace p r) (archivePlace p r) = .ok d' ∨
      ∃ d1, d.makeDirs (p ++ [r.sectionName, Archive.dirName]) = .ok d1 ∧
        d1.rename (livePlace p r) (archivePlace p r) = .ok d' := by
  rcases archiveFile_moved hp hr h with ⟨-, rfl⟩ | ⟨-, d0, hmv, rfl | hm⟩
  · exact .inl rfl
  · exact .inr (.inl hmv)
  · exact .inr (.inr ⟨d0, hm, hmv⟩)

end Places

namespace Inv

variable {W : World}

/-- Replacing a container by one with the same name, root and sections whose bin holds plain
claims and whose queue of archived files names archived places keeps the invariant. -/
theorem setContainer (hI : Inv W) {box : Container} (hbox : box ∈ W.store.repo.containers)
    (c : Container) (hname : c.name = box.name) (hroot : c.root = box.root)
    (hsec : c.sections = box.sections) (hbin : ∀ x ∈ c.reclaimable.items, x.Plain)
    (hfiled : c.Filed) :
    Inv { W with store := { W.store with repo := W.store.repo.setContainer c } } := by
  refine hI.containers ?_ (fun b hb => ?_) fun b hb => ?_
  · rw [List.map_map]
    refine List.map_congr_left fun c' hc' => ?_
    simp only [Function.comp_apply]
    split
    · next h =>
      have hc'box : c' = box :=
        List.inj_on_of_nodup_map hI.layout.names hc' hbox ((beq_iff_eq.1 h).trans hname)
      rw [hc'box, hname, hroot, hsec]
    · rfl
  · obtain ⟨c', hc', rfl⟩ := List.mem_map.1 hb
    split
    · exact hbin
    · exact hI.binned c' hc'
  · obtain ⟨c', hc', rfl⟩ := List.mem_map.1 hb
    split
    · exact hfiled
    · exact hI.filed c' hc'

theorem archiveFile (hI : Inv W) {box : Container} (hbox : box ∈ W.store.repo.containers)
    {p : Place} (hp : place? box.root = some p) {r : Resource} (hr : r.Plain)
    (hname : box.name = r.container) {moved : Bool} {d : Disk}
    (h : ClaimStore.archiveFile W.store.host.disk (box.claimPath r) = .ok (moved, d)) :
    Inv { W with store := { W.store with host := { W.store.host with disk := d } } } := by
  rcases archiveFile_cases hp hr h with rfl | hmv | ⟨d1, hm, hmv⟩
  · exact hI
  · exact hI.rename_archive hbox hp hr hname hmv
  · exact (hI.makeDirs_archive hbox hp hr.1 hm).rename_archive hbox hp hr hname hmv

theorem streamOf?_of_begin (hI : Inv W) {r : Resource} {target : Lifecycle}
    (hb : (W.store.repo.tracker.beginDestruction r target).1 = true) :
    W.store.repo.streamOf? r = none := by
  obtain ⟨-, hfrozen, -⟩ := (Tracker.beginDestruction_fst _ _ _).1 hb
  rw [Repo.streamOf?_eq_none, hI.writable, hfrozen]
  rfl

theorem finish_of_begin (hI : Inv W) {r : Resource} {target : Lifecycle}
    (hb : (W.store.repo.tracker.beginDestruction r target).1 = true) :
    Inv { W with store := { W.store with repo := { W.store.repo with tracker :=
      (W.store.repo.tracker.beginDestruction r target).2.finishDestruction r } } } :=
  hI.tracker _ (fun _ => by rw [Tracker.state_finish_of_begin _ _ _ hb]) fun c hc => by
    rw [Tracker.queue_finishDestruction, Tracker.queue_beginDestruction] at hc
    exact hI.queued c hc

theorem abort_of_begin (hI : Inv W) {r : Resource} {target : Lifecycle}
    (hb : (W.store.repo.tracker.beginDestruction r target).1 = true) :
    Inv { W with store := { W.store with repo := { W.store.repo with tracker :=
      (W.store.repo.tracker.beginDestruction r target).2.abortDestruction r } } } :=
  hI.tracker _ (fun _ => by rw [Tracker.state_abort_of_begin _ _ _ hb]) fun c hc => by
    rw [Tracker.queue_abortDestruction, Tracker.queue_beginDestruction] at hc
    exact hI.queued c hc

theorem not_begin (hI : Inv W) {r : Resource} {target : Lifecycle}
    (hb : (W.store.repo.tracker.beginDestruction r target).1 = false) :
    Inv { W with store := { W.store with repo := { W.store.repo with tracker :=
      (W.store.repo.tracker.beginDestruction r target).2 } } } :=
  hI.tracker _ (fun _ => by rw [Tracker.record_of_not_begin _ _ _ hb]) fun c hc => by
    rw [Tracker.queue_beginDestruction] at hc
    exact hI.queued c hc

end Inv

namespace Action

variable (s : Store) {r : Resource} {box : Container}

/-! ## Removing a claim -/

theorem exec_removeResource_of_none (hbox : s.repo.container? r.container = none) :
    (removeResource r).exec s = (.error (.unknownContainer r.container), s) := by
  simp [removeResource, exec_bind, exec_container, hbox]

theorem exec_removeResource_of_not_begin (hbox : s.repo.container? r.container = some box)
    (hb : (s.repo.tracker.beginDestruction r .removed).1 = false) :
    (removeResource r).exec s =
      (.ok false, ⟨{ s.repo with tracker := (s.repo.tracker.beginDestruction r .removed).2 },
        s.host⟩) := by
  simp [removeResource, exec_bind, exec_container, hbox, hb]

theorem exec_removeResource_of_begin (hbox : s.repo.container? r.container = some box)
    (hb : (s.repo.tracker.beginDestruction r .removed).1 = true)
    (hn : s.repo.streamOf? r = none) :
    (removeResource r).exec s =
      let t := (s.repo.tracker.beginDestruction r .removed).2
      match s.host.disk.removeFileAt (box.claimPath r) with
      | .ok d =>
        (.ok true, ⟨{ s.repo with tracker := t.finishDestruction r }, { s.host with disk := d }⟩)
      | .error .notFound => (.ok false, ⟨{ s.repo with tracker := t.finishDestruction r }, s.host⟩)
      | .error e => (.error (.io e), ⟨{ s.repo with tracker := t.abortDestruction r }, s.host⟩) := by
  simp only [removeResource, exec_bind, exec_container, hbox, exec_tracking, hb, Bool.not_true,
    Bool.false_eq_true, ↓reduceIte]
  rw [exec_retireStream_of_none
    ⟨{ s.repo with tracker := (s.repo.tracker.beginDestruction r .removed).2 }, s.host⟩ r hn]
  simp only [exec_host]
  split <;> next h => simp [h, exec_bind, exec_map]

theorem keeps_removeResource (hr : r.Plain) : (removeResource r).Keeps := by
  intro W hI
  cases hbox : W.store.repo.container? r.container with
  | none =>
    rw [exec_removeResource_of_none _ hbox]
    exact hI
  | some box =>
    obtain ⟨hmem, hname⟩ := Repo.mem_of_container? hbox
    obtain ⟨p, hp⟩ := Option.isSome_iff_exists.1 (hI.layout.rooted box hmem)
    cases hb : (W.store.repo.tracker.beginDestruction r .removed).1 with
    | false =>
      rw [exec_removeResource_of_not_begin _ hbox hb]
      exact hI.not_begin hb
    | true =>
      rw [exec_removeResource_of_begin _ hbox hb (hI.streamOf?_of_begin hb)]
      dsimp only
      split
      · next d hd =>
        rw [removeFileAt_claimPath hp hr] at hd
        exact (hI.finish_of_begin hb).unlink (Disk.removeFile_unlinked hI.sound hd)
      · exact hI.finish_of_begin hb
      · exact hI.abort_of_begin hb

/-! ## Archiving a claim -/

theorem exec_archive_of_off (ha : s.repo.settings.archiveEnabled = false) :
    (archive r).exec s = (.ok false, s) := by
  simp [archive, exec_bind, ha]

theorem exec_archive_of_none (ha : s.repo.settings.archiveEnabled = true)
    (hbox : s.repo.container? r.container = none) :
    (archive r).exec s = (.error (.unknownContainer r.container), s) := by
  simp [archive, exec_bind, ha, exec_container, hbox]

theorem exec_archive_of_not_begin (ha : s.repo.settings.archiveEnabled = true)
    (hbox : s.repo.container? r.container = some box)
    (hb : (s.repo.tracker.beginDestruction r .archived).1 = false) :
    (archive r).exec s =
      (.ok false, ⟨{ s.repo with tracker := (s.repo.tracker.beginDestruction r .archived).2 },
        s.host⟩) := by
  simp [archive, exec_bind, ha, exec_container, hbox, hb]

/-- Archiving a claim whose destruction begins: the file moves and the destruction finishes,
the container counting the archived file; a failure undoes the destruction. -/
theorem exec_archive_of_begin (ha : s.repo.settings.archiveEnabled = true)
    (hbox : s.repo.container? r.container = some box)
    (hb : (s.repo.tracker.beginDestruction r .archived).1 = true)
    (hn : s.repo.streamOf? r = none) :
    (archive r).exec s =
      let t := (s.repo.tracker.beginDestruction r .archived).2
      match archiveFile s.host.disk (box.claimPath r) with
      | .ok (moved, d) =>
        (.ok moved, ⟨if moved then
            ({ s.repo with tracker := t.finishDestruction r } : Repo).setContainer
              { box with gate := box.gate.incArchived }
          else { s.repo with tracker := t.finishDestruction r }, { s.host with disk := d }⟩)
      | .error e => (.error (.io e), ⟨{ s.repo with tracker := t.abortDestruction r }, s.host⟩) := by
  simp only [archive, exec_bind, exec_repo, ha, Bool.not_true, Bool.false_eq_true, ↓reduceIte,
    exec_container, hbox, exec_tracking, hb]
  rw [exec_retireStream_of_none
    ⟨{ s.repo with tracker := (s.repo.tracker.beginDestruction r .archived).2 }, s.host⟩ r hn]
  simp only [exec_host]
  split
  · next moved d h =>
    cases moved
    · simp [h, exec_bind, exec_map]
    · have hfind : s.repo.containers.find? (·.name == r.container) = some box := hbox
      simp [h, exec_bind, exec_map, exec_container, Repo.container?, hfind, setContainer]
  · next e h => simp [h, exec_bind]

theorem keeps_archive (hr : r.Plain) : (archive r).Keeps := by
  intro W hI
  cases ha : W.store.repo.settings.archiveEnabled with
  | false =>
    rw [exec_archive_of_off _ ha]
    exact hI
  | true =>
  cases hbox : W.store.repo.container? r.container with
  | none =>
    rw [exec_archive_of_none _ ha hbox]
    exact hI
  | some box =>
    obtain ⟨hmem, hname⟩ := Repo.mem_of_container? hbox
    obtain ⟨p, hp⟩ := Option.isSome_iff_exists.1 (hI.layout.rooted box hmem)
    cases hb : (W.store.repo.tracker.beginDestruction r .archived).1 with
    | false =>
      rw [exec_archive_of_not_begin _ ha hbox hb]
      exact hI.not_begin hb
    | true =>
      rw [exec_archive_of_begin _ ha hbox hb (hI.streamOf?_of_begin hb)]
      dsimp only
      split
      · next moved d hd =>
        have hdisk := (hI.finish_of_begin hb).archiveFile hmem hp hr hname hd
        cases moved
        · exact hdisk
        · exact hdisk.setContainer hmem _ rfl rfl rfl (hI.binned box hmem) (hI.filed box hmem)
      · exact hI.abort_of_begin hb

/-! ## Rounds of destruction -/

theorem keeps_destroy (report : Destruction) {c : Resource} (hc : c.Plain) :
    (destroy report c).Keeps := by
  unfold destroy
  refine Keeps.bind keeps_repo fun rp => Keeps.bind (Keeps.attempt ?_) fun o => ?_
  · split
    · exact keeps_archive hc
    · exact keeps_removeResource hc
  · split <;> exact Keeps.pure _

theorem keeps_archiveOrDestroy (report : Destruction) (name : String) :
    (archiveOrDestroy report name).Keeps := by
  intro W hI
  unfold archiveOrDestroy
  rw [exec_bind, exec_container]
  cases hbox : W.store.repo.container? name with
  | none => exact hI
  | some box =>
    obtain ⟨hmem, -⟩ := Repo.mem_of_container? hbox
    dsimp only
    have hI' := hI.setContainer hmem
      { box with reclaimable := (box.reclaimable.drain box.reclaimable.size).2 } rfl rfl rfl
      (fun x hx => hI.binned box hmem x (List.mem_of_mem_drop hx)) (hI.filed box hmem)
    rw [setContainer, exec_bind, exec_modifyRepo]
    exact Keeps.foldlM (fun b x hx => keeps_destroy b (hI.binned box hmem x
      (List.mem_of_mem_take hx))) report _ hI'

theorem keeps_runDestruction : runDestruction.Keeps := by
  intro W hI
  unfold runDestruction
  rw [exec_bind, exec_repo]
  simp only [Tracker.drainDestructable, Fifo.drain]
  rw [exec_bind, exec_modifyRepo]
  have hI' := hI.tracker { W.store.repo.tracker with queue :=
      (W.store.repo.tracker.queue.drain W.store.repo.tracker.pending).2 } (fun _ => rfl)
    fun c hc => hI.queued c (List.mem_of_mem_drop hc)
  exact (Keeps.bind (Keeps.foldlM (fun b x hx => keeps_destroy b
      (hI.queued x (List.mem_of_mem_take hx))) {}) fun report =>
    Keeps.bind keeps_repo fun rp => Keeps.foldlM (fun b name _ => keeps_archiveOrDestroy b name)
      report) _ hI'

/-! ## Cleaning up -/

theorem plain_of_liveClaims {box : Container} {d : Disk} (hs : d.Sound) {c : Resource}
    (hc : c ∈ box.liveClaims d) : c.Plain := by
  unfold Container.liveClaims at hc
  split at hc
  · simp at hc
  · rw [List.mem_flatMap] at hc
    obtain ⟨⟨dir, n⟩, hdir, hc⟩ := hc
    dsimp only at hc
    split at hc
    · simp at hc
    · rw [List.mem_filterMap] at hc
      obtain ⟨⟨name, m⟩, hname, he⟩ := hc
      dsimp only at he
      split at he
      · split at he
        · cases he
        · cases he
          exact ⟨hs.plain_of_children hdir, hs.plain_of_children hname⟩
      · cases he

theorem keeps_cleanup : cleanup.Keeps := by
  unfold cleanup
  refine Keeps.bind keeps_repo fun rp => Keeps.bind keeps_repo fun rp' =>
    Keeps.bind (Keeps.forIn (fun name _ report => ?_) _) fun _ => Keeps.pure _
  refine Keeps.bind (keeps_container name) fun box => ?_
  intro W hI
  rw [exec_bind, exec_host]
  refine (Keeps.bind (Keeps.forIn (fun c hc report => ?_) _) fun _ => Keeps.pure _) _ hI
  have hp := plain_of_liveClaims hI.sound hc
  refine Keeps.bind keeps_repo fun rt => ?_
  split
  · exact Keeps.pure _
  · refine Keeps.bind (Keeps.attempt ?_) fun o => ?_
    · split
      · exact keeps_archive hp
      · exact keeps_removeResource hp
    · split <;> exact Keeps.pure _

end Action

namespace Inv

variable {W : World}

theorem step_remove (hI : Inv W) {r : Resource} (hr : r.Plain) : Inv (W.step (.remove r)) := by
  have hI' := Action.keeps_removeResource hr W hI
  simp only [World.step]
  rw [after_eq hI']
  exact hI'

theorem step_archive (hI : Inv W) {r : Resource} (hr : r.Plain) : Inv (W.step (.archive r)) := by
  have hI' := Action.keeps_archive hr W hI
  simp only [World.step]
  rw [after_eq hI']
  exact hI'

theorem step_destroy (hI : Inv W) : Inv (W.step .destroy) := by
  have hI' := Action.keeps_runDestruction W hI
  simp only [World.step]
  rw [after_eq hI']
  exact hI'

theorem step_cleanup (hI : Inv W) : Inv (W.step .cleanup) := by
  have hI' := Action.keeps_cleanup W hI
  simp only [World.step]
  rw [after_eq hI']
  exact hI'

end Inv

end ClaimStore
