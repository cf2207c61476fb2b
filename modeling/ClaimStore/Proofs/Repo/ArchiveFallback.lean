import ClaimStore.Proofs.Repo.Cleanup
import ClaimStore.Proofs.Repo.Pumping
import ClaimStore.Proofs.Repo.Purging
/-!
# Where an archived file is found

Archiving moves a claim's file from `<root>/<section>/<id>` to the archive directory beside it,
`<root>/<section>/archive/<id>`, and a reading looks at the first place and then at the second.
The two locations are built apart: archiving splits the live path into its parent and its file
name (`Archive.pathFor?`), while the container joins section and id below its archive directory
(`Container.archivePath`). For plain names and a section not named like the archive directory
they agree; the live path is not archived and the archive path is, so archiving the archive path
again moves nothing. A file that archiving moved has left its live place for its archive place
(`archiveFile_moves`), which is where opening, resolving and probing the claim then find it.

Main statement: `archived_file_found_by_fallback`.
-/

set_option autoImplicit false

namespace ClaimStore

open ClaimStore.Claim ClaimStore.FileSystem ClaimStore.Path

theorem Disk.exists_place? {t : String} (ht : t ≠ "") : ∃ p, place? t = some p := by
  unfold place?
  rw [if_neg (by simpa using ht)]
  split <;> exact ⟨_, rfl⟩

/-! ## The two locations of a claim -/

namespace Container

variable {c : Container} {root : Place} {r : Resource}

theorem isArchived_archivePath (hc : place? c.root = some root) (hr : r.Plain) :
    Archive.isArchived (c.archivePath r) = true := by
  have hdir : fileName? (c.archiveDir r.sectionName) = some Archive.dirName :=
    fileName?_join (join_ne_empty (root_ne_empty hc) hr.1) plain_dirName
  simp [Archive.isArchived, parent?_archivePath hc hr, hdir]

end Container

/-! ## A file that archiving moved -/

section Moved

variable {d d' : Disk} {box : Container} {p : Place} {r : Resource} {i : Nat}

theorem rename_archive_file (hs : d.Sound) (hr : r.Plain)
    (hf : d.node? (livePlace p r) = some (.file i))
    (hmv : d.rename (livePlace p r) (archivePlace p r) = .ok d') :
    d'.Sound ∧ d'.node? (livePlace p r) = none ∧ d'.node? (archivePlace p r) = some (.file i) := by
  obtain ⟨hs', -, hnode⟩ := Disk.rename_file hs hf (plain_archivePlace hs hr hf) hmv
  have hne : livePlace p r ≠ archivePlace p r := by simp [livePlace, archivePlace]
  refine ⟨hs', ?_, ?_⟩
  · rw [hnode, if_neg hne, if_pos rfl]
  · rw [hnode, if_pos rfl]

/-- A file that archiving moved lies at its claim's archive place, and the live place holds
nothing: moved by one rename, or by a rename after the archive directory was made. -/
theorem archiveFile_moves (hs : d.Sound) (hp : place? box.root = some p) (hr : r.Plain)
    (hsec : r.sectionName ≠ Archive.dirName) (hf : d.node? (livePlace p r) = some (.file i))
    (h : archiveFile d (box.claimPath r) = .ok (true, d')) :
    d'.Sound ∧ d'.node? (livePlace p r) = none ∧ d'.node? (archivePlace p r) = some (.file i) := by
  rw [archiveFile_claimPath hs hp hr hsec hf] at h
  split at h
  · next d1 hmv =>
    cases h
    exact rename_archive_file hs hr hf hmv
  · -- the archive directory was missing: it is made, and the file renamed on the disk after
    cases hm : d.makeDirs (p ++ [r.sectionName, Archive.dirName]) with
    | error e => simp [hm, bind, Except.bind] at h
    | ok d1 =>
      have hplain : ∀ s ∈ p ++ [r.sectionName, Archive.dirName], Path.Plain s := fun s hs' =>
        plain_archivePlace hs hr hf s (by rw [archivePlace_eq_append]; exact List.mem_append_left _ hs')
      obtain ⟨hs1, -, hnode1⟩ := Disk.makeDirs_eq_ok hs hplain hm
      -- making directories leaves a place that held the file as it was
      have hf1 : d1.node? (livePlace p r) = some (.file i) := by
        rw [hnode1, if_neg (fun hmade => by rw [hmade.2.2] at hf; cases hf)]
        exact hf
      cases hmv : d1.rename (livePlace p r) (archivePlace p r) with
      | error e => simp [hm, hmv, bind, Except.bind] at h
      | ok d2 =>
        simp only [hm, hmv, bind, Except.bind, pure, Except.pure, Except.ok.injEq,
          Prod.mk.injEq, true_and] at h
        subst h
        exact rename_archive_file hs1 hr hf1 hmv
  · cases h

end Moved

/-! ## Reading a claim whose file was archived -/

namespace Action

variable {s : Store} {r : Resource} {box : Container} {p : Place}

theorem exec_resolvePath_of_archived (hbox : s.repo.container? r.container = some box)
    (hp : place? box.root = some p) (hr : r.Plain) (hs : s.host.disk.Sound)
    (hlive : s.host.disk.node? (livePlace p r) = none) {n : Node}
    (harch : s.host.disk.node? (archivePlace p r) = some n) :
    (resolvePath r).exec s = (.ok (some (box.archivePath r)), s) := by
  simp only [resolvePath, exec_bind, exec_repo, hbox, exec_host, exec_pure]
  simp [Disk.existsAt, Disk.nodeAt?_of_place? hs (Container.claimPath_place hp hr),
    Disk.nodeAt?_of_place? hs (Container.archivePath_place hp hr), hlive, harch]

end Action

/-- For a container with a root and a claim with plain section and id, in a section not named
like the archive directory: archiving the live path targets the claim's archive path, the live
path is not archived while the archive path is, and archiving the archive path moves nothing.
On a store whose disk is sound, once archiving moved the file at the live path, the live path
holds nothing and the claim opens the moved file, resolves to its archive path and is
accessible. -/
theorem archived_file_found_by_fallback {box : Container} {r : Resource} (hroot : box.root ≠ "")
    (hr : r.Plain) (hsec : r.sectionName ≠ Archive.dirName) :
    Archive.pathFor? (box.claimPath r) = some (box.archivePath r) ∧
    Archive.isArchived (box.claimPath r) = false ∧
    Archive.isArchived (box.archivePath r) = true ∧
    (∀ d, archiveFile d (box.archivePath r) = .ok (false, d)) ∧
    ∀ (s : Store) (i : Nat) (d' : Disk), s.repo.container? r.container = some box →
      s.host.disk.Sound → s.host.disk.nodeAt? (box.claimPath r) = some (.file i) →
      archiveFile s.host.disk (box.claimPath r) = .ok (true, d') →
      d'.nodeAt? (box.claimPath r) = none ∧
      (Action.openContent r).exec (s.withDisk d') = (.ok (.file i), s.withDisk d') ∧
      (Action.resolvePath r).exec (s.withDisk d') =
        (.ok (some (box.archivePath r)), s.withDisk d') ∧
      (Action.isAccessible r).exec (s.withDisk d') = (.ok true, s.withDisk d') := by
  obtain ⟨p, hp⟩ := Disk.exists_place? hroot
  have harchived := Container.isArchived_archivePath hp hr
  refine ⟨Container.pathFor?_claimPath hp hr, by simp [Container.isArchived_claimPath hp hr, hsec],
    harchived, fun d => archiveFile_of_isArchived harchived, ?_⟩
  intro s i d' hbox hs hfile hmove
  rw [Disk.nodeAt?_of_place? hs (Container.claimPath_place hp hr)] at hfile
  obtain ⟨hs', hlive, harch⟩ := archiveFile_moves hs hp hr hsec hfile hmove
  have hbox' : (s.withDisk d').repo.container? r.container = some box := hbox
  refine ⟨by rw [Disk.nodeAt?_of_place? hs' (Container.claimPath_place hp hr), hlive], ?_, ?_, ?_⟩
  · exact Action.exec_openContent hbox' hp hr hs' (.inr ⟨hlive, harch⟩)
  · exact Action.exec_resolvePath_of_archived hbox' hp hr hs' hlive harch
  · rw [Action.exec_isAccessible hbox' hp hr hs']
    simp [Store.withDisk, hlive, harch]

deriving instance DecidableEq for FileSystem.Inode, FileSystem.Disk

/-- The container of `abcPooled`, whose pooled file holds `abc`. -/
def abcBox : Container := (abcPooled.store.repo.container? "default").get (by decide +kernel)

/-- `abcPooled`'s disk once the pooled file is archived. -/
def abcArchivedDisk : Disk :=
  match archiveFile abcPooled.store.host.disk (abcBox.claimPath pooledCopy.resource) with
  | .ok (_, d) => d
  | .error _ => abcPooled.store.host.disk

/-- The pooled file holding `abc`, once archived, is what its claim opens, from its archive
place. -/
theorem pooled_file_found_once_archived :
    abcBox.root ≠ "" ∧ pooledCopy.resource.Plain ∧
    pooledCopy.resource.sectionName ≠ Archive.dirName ∧
    abcPooled.store.repo.container? pooledCopy.resource.container = some abcBox ∧
    abcPooled.store.host.disk.Sound ∧
    abcPooled.store.host.disk.nodeAt? (abcBox.claimPath pooledCopy.resource) = some (.file 0) ∧
    archiveFile abcPooled.store.host.disk (abcBox.claimPath pooledCopy.resource) =
      .ok (true, abcArchivedDisk) ∧
    abcArchivedDisk.nodeAt? (abcBox.claimPath pooledCopy.resource) = none ∧
    (Action.openContent pooledCopy.resource).exec (abcPooled.store.withDisk abcArchivedDisk) =
      (.ok (.file 0), abcPooled.store.withDisk abcArchivedDisk) ∧
    (Action.resolvePath pooledCopy.resource).exec (abcPooled.store.withDisk abcArchivedDisk) =
      (.ok (some (abcBox.archivePath pooledCopy.resource)),
        abcPooled.store.withDisk abcArchivedDisk) ∧
    (Action.isAccessible pooledCopy.resource).exec (abcPooled.store.withDisk abcArchivedDisk) =
      (.ok true, abcPooled.store.withDisk abcArchivedDisk) := by
  have hroot : abcBox.root ≠ "" := by decide +kernel
  have hr : pooledCopy.resource.Plain := by
    unfold Resource.Plain
    decide
  have hsec : pooledCopy.resource.sectionName ≠ Archive.dirName := by decide
  have hbox : abcPooled.store.repo.container? pooledCopy.resource.container = some abcBox :=
    (Option.some_get _).symm
  have hs := abcPooled_reachable.inv.sound
  have hfile : abcPooled.store.host.disk.nodeAt? (abcBox.claimPath pooledCopy.resource) =
      some (.file 0) := by decide +kernel
  have hmove : archiveFile abcPooled.store.host.disk (abcBox.claimPath pooledCopy.resource) =
      .ok (true, abcArchivedDisk) := by decide +kernel
  exact ⟨hroot, hr, hsec, hbox, hs, hfile, hmove,
    (archived_file_found_by_fallback hroot hr hsec).2.2.2.2 _ 0 _ hbox hs hfile hmove⟩

end ClaimStore
