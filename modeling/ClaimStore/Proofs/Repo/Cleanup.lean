import ClaimStore.Proofs.Repo.LiveFiles
import ClaimStore.Proofs.Repo.Reading
import ClaimStore.Proofs.Disk.Listing
/-!
# Cleaning up files nothing references

A cleanup walks the containers in order and, in each, the claims its listing
(`Container.liveClaims`) shows when the container's turn comes. It leaves every claim in use and
hands every other one to archiving or, with archiving off, to removal, counting what each did.

What a claim meets is read off the store the cleanup starts from (`Store.reclaim`): a claim's
turn changes nothing another claim's turn reads. The records stay, since a destruction that
begins always finishes or is undone and the claim was frozen without claimants; on the disk only
the claim's live place, archive directory and archive place change, and no other listed claim
has one of these. So the report counts the outcomes read off the starting store, and afterwards
each container lists just the claims that were not reclaimed (`cleanup_reconciles`).

A container's listing takes every regular file one directory below its root, in the directory
named like the archive directory too. Archiving sees a file there as archived already, so with
archiving on such a file is scanned, left where it is, counted as neither archived, removed nor
failed, and stays listed. A claim whose destruction is under way is left the same way.
-/

set_option autoImplicit false

namespace ClaimStore

open ClaimStore.Claim ClaimStore.FileSystem

/-- Something stands in the way of archiving the claim `c` of a container rooted at `p`: a file
where its archive directory belongs, or a directory at its archive place. -/
def archiveBlocked (d : Disk) (p : Place) (c : Resource) : Bool :=
  (match d.node? (p ++ [c.sectionName, Archive.dirName]) with
   | some (.file _) => true
   | _ => false) || d.node? (archivePlace p c) == some .dir

/-- What a place holds once the file of the claim `c` of a container rooted at `p` is reclaimed:
archived, it lies at its archive place, in the claim's archive directory; removed, it is gone. -/
def reclaimedNode (d : Disk) (archiving : Bool) (p : Place) (c : Resource) (q : Place) :
    Option Node :=
  if q = livePlace p c then none
  else if archiving ∧ q = archivePlace p c then d.node? (livePlace p c)
  else if archiving ∧ q = p ++ [c.sectionName, Archive.dirName] then some .dir
  else d.node? q

theorem reclaimedNode_of_ne {d : Disk} {a : Bool} {p q : Place} {c : Resource}
    (hL : q ≠ livePlace p c) (hA : q ≠ archivePlace p c)
    (hD : q ≠ p ++ [c.sectionName, Archive.dirName]) : reclaimedNode d a p c q = d.node? q := by
  simp [reclaimedNode, hL, hA, hD]

namespace FileSystem.Disk


variable {d : Disk} {i : Nat}

theorem rename_file_ok (hs : d.Sound) {src dst : Place} (hsrc : d.node? src = some (.file i))
    (hreach : d.reach dst = .ok ()) (hpre : ¬ src <+: dst) (hdst : d.node? dst ≠ some .dir) :
    ∃ d', d.rename src dst = .ok d' := by
  have hne : src ≠ dst := fun h => hpre (h ▸ List.prefix_refl _)
  have hpre' : src.isPrefixOf dst = false := by
    rw [Bool.eq_false_iff]
    exact fun h => hpre (List.isPrefixOf_iff_prefix.1 h)
  unfold rename
  simp only [hs.reach hsrc, hreach, hsrc, bind, Except.bind, if_neg hne, hpre', Bool.false_eq_true,
    if_false]
  rcases hd : d.node? dst with _ | _ | j
  · exact ⟨_, rfl⟩
  · exact absurd hd hdst
  · exact ⟨_, rfl⟩

theorem rename_of_reach {src dst : Place} {n : Node} (hs : d.Sound) (hsrc : d.node? src = some n)
    {e : IoError} (hreach : d.reach dst = .error e) : d.rename src dst = .error e := by
  simp [rename, hs.reach hsrc, hreach, bind, Except.bind]

theorem makeDirs_ok {p : Place} (hdirs : ∀ k, 0 < k → k < p.length → d.node? (p.take k) = some .dir)
    (hp : ∀ i, d.node? p ≠ some (.file i)) : ∃ d', d.makeDirs p = .ok d' := by
  unfold makeDirs
  rcases hn : d.node? p with _ | _ | j
  · -- no place on the way holds a file
    dsimp only
    rw [if_neg]
    · exact ⟨_, rfl⟩
    · rw [Bool.not_eq_true, List.any_eq_false]
      intro k hk
      simp only [List.range_eq_range', List.drop_range', List.mem_range'_1] at hk
      rw [hdirs k (by omega) (by omega)]
      simp
  · exact ⟨d, rfl⟩
  · exact absurd hn (hp j)

end FileSystem.Disk

section Archiving

variable {d : Disk} {p : Place} {box : Container} {r : Resource} {i : Nat}

theorem take_archivePlace : (archivePlace p r).take (p.length + 2) = p ++ [r.sectionName, Archive.dirName] := by
  simp [archivePlace, List.take_append, List.take_of_length_le (Nat.le_add_right p.length 2)]

theorem archivePlace_eq_append : archivePlace p r = (p ++ [r.sectionName, Archive.dirName]) ++ [r.id] := by
  simp [archivePlace]

theorem livePlace_not_prefix (hid : r.id ≠ Archive.dirName) : ¬ livePlace p r <+: archivePlace p r := by
  intro h
  have h' := (List.prefix_append_right_inj p).1 h
  simp only [List.cons_prefix_cons, true_and] at h'
  exact hid h'.1

theorem dirs_above_archiveDir (hs : d.Sound) {n : Node} (hf : d.node? (livePlace p r) = some n) :
    ∀ k, k < (p ++ [r.sectionName, Archive.dirName]).length →
      d.node? ((p ++ [r.sectionName, Archive.dirName]).take k) = some .dir := by
  have h := hs.above_append (hs.section_dir hf) Archive.dirName
  simpa using h

/-- Archiving the file of a claim in a section not named like the archive directory moves the
file to its archive place; when the archive directory is missing, it is made and the move tried
again. -/
theorem archiveFile_claimPath (hs : d.Sound) (hp : place? box.root = some p) (hr : r.Plain)
    (hsec : r.sectionName ≠ Archive.dirName) (hf : d.node? (livePlace p r) = some (.file i)) :
    archiveFile d (box.claimPath r) =
      match d.rename (livePlace p r) (archivePlace p r) with
      | .ok d' => .ok (true, d')
      | .error .notFound => do
        let d1 ← d.makeDirs (p ++ [r.sectionName, Archive.dirName])
        let d2 ← d1.rename (livePlace p r) (archivePlace p r)
        pure (true, d2)
      | .error e => .error e := by
  have hexists : d.existsAt (box.claimPath r) = true := by
    simp [Disk.existsAt, Disk.nodeAt?_of_place? hs (Container.claimPath_place hp hr), hf]
  unfold archiveFile
  rw [Container.isArchived_claimPath hp hr, Container.pathFor?_claimPath hp hr]
  simp only [beq_iff_eq, hsec, if_false, renameAt_claimPath hp hr,
    Container.parent?_archivePath hp hr, makeDirsAt_archiveDir hp hr, hexists, Bool.not_true,
    Bool.false_eq_true]
  cases d.rename (livePlace p r) (archivePlace p r) with
  | ok d' => rfl
  | error e => cases e <;> rfl

theorem archiveBlocked_eq_false : archiveBlocked d p r = false ↔
    (∀ j, d.node? (p ++ [r.sectionName, Archive.dirName]) ≠ some (.file j)) ∧
      d.node? (archivePlace p r) ≠ some .dir := by
  unfold archiveBlocked
  rcases d.node? (p ++ [r.sectionName, Archive.dirName]) with _ | _ | j <;> simp

theorem rename_archive_not_ok (hf : d.node? (livePlace p r) = some (.file i))
    (hb : archiveBlocked d p r = true) (d' : Disk) :
    d.rename (livePlace p r) (archivePlace p r) ≠ .ok d' := by
  intro h
  obtain ⟨hrd, -, hcase⟩ := Disk.rename_eq_ok h
  -- the move walked to its target through the archive directory, and found no directory there
  have hdir : d.node? (p ++ [r.sectionName, Archive.dirName]) = some .dir := by
    have := (Disk.reach_eq_ok d _).1 hrd (p.length + 2) (by omega) (by simp [archivePlace])
    rwa [take_archivePlace] at this
  have hplace : d.node? (archivePlace p r) ≠ some .dir := by
    rcases hcase with ⟨heq, -⟩ | ⟨-, hnd, -⟩
    · exact absurd (congrArg List.length heq) (by simp [livePlace, archivePlace])
    · exact hnd (by rw [hf]; simp)
  have hclear : archiveBlocked d p r = false :=
    archiveBlocked_eq_false.2 ⟨fun j h => (by simp [hdir] at h), hplace⟩
  rw [hb] at hclear
  cases hclear

/-- With something in the way, archiving the file fails. -/
theorem archiveFile_of_blocked (hs : d.Sound) (hp : place? box.root = some p) (hr : r.Plain)
    (hsec : r.sectionName ≠ Archive.dirName) (hf : d.node? (livePlace p r) = some (.file i))
    (hb : archiveBlocked d p r = true) : ∃ e, archiveFile d (box.claimPath r) = .error e := by
  rw [archiveFile_claimPath hs hp hr hsec hf]
  cases hmv : d.rename (livePlace p r) (archivePlace p r) with
  | ok d' => exact absurd hmv (rename_archive_not_ok hf hb d')
  | error e =>
    cases e
    case notFound =>
      dsimp only
      rcases hn : d.node? (p ++ [r.sectionName, Archive.dirName]) with _ | _ | j
      · -- a missing archive directory has nothing below it: nothing is in the way
        have hA : d.node? (archivePlace p r) = none := by
          cases hA : d.node? (archivePlace p r) with
          | none => rfl
          | some n =>
            have := hs.above _ n hA (p.length + 2) (by simp [archivePlace])
            rw [take_archivePlace, hn] at this
            cases this
        have hclear : archiveBlocked d p r = false :=
          archiveBlocked_eq_false.2 ⟨fun j h => (by simp [hn] at h), by simp [hA]⟩
        rw [hb] at hclear
        cases hclear
      · -- an archive directory: nothing is made, and the move fails again
        have hm : d.makeDirs (p ++ [r.sectionName, Archive.dirName]) = .ok d := by
          unfold Disk.makeDirs
          rw [hn]
          rfl
        simp [hm, hmv, bind, Except.bind]
      · -- a file: the archive directory cannot be made
        have hm : d.makeDirs (p ++ [r.sectionName, Archive.dirName]) = .error .alreadyExists := by
          unfold Disk.makeDirs
          rw [hn]
          rfl
        simp [hm, bind, Except.bind]
    all_goals exact ⟨_, rfl⟩

theorem plain_archivePlace (hs : d.Sound) (hr : r.Plain) {n : Node}
    (hf : d.node? (livePlace p r) = some n) : ∀ s ∈ archivePlace p r, Path.Plain s :=
  plain_archivePlace_of_root (fun s hs' => hs.plain _ _ hf s (List.mem_append_left _ hs')) hr

/-- With nothing in the way, archiving the file moves it to its archive place, making the
archive directory when it is missing, and changes nothing else. -/
theorem archiveFile_of_clear (hs : d.Sound) (hk : d.Keyed) (hp : place? box.root = some p)
    (hr : r.Plain) (hsec : r.sectionName ≠ Archive.dirName) (hid : r.id ≠ Archive.dirName)
    (hf : d.node? (livePlace p r) = some (.file i)) (hb : archiveBlocked d p r = false) :
    ∃ d', archiveFile d (box.claimPath r) = .ok (true, d') ∧ d'.Keyed ∧
      ∀ q, d'.node? q = reclaimedNode d true p r q := by
  obtain ⟨hD, hA⟩ := archiveBlocked_eq_false.1 hb
  have hplain := plain_archivePlace hs hr hf
  have hpre := livePlace_not_prefix (p := p) hid
  rw [archiveFile_claimPath hs hp hr hsec hf]
  have hLA : livePlace p r ≠ archivePlace p r := by simp [livePlace, archivePlace]
  have hLD : livePlace p r ≠ p ++ [r.sectionName, Archive.dirName] := by simp [livePlace, hid]
  have hAD : archivePlace p r ≠ p ++ [r.sectionName, Archive.dirName] := by simp [archivePlace]
  rcases hn : d.node? (p ++ [r.sectionName, Archive.dirName]) with _ | _ | j
  · -- the archive directory is missing: the first move fails on it, the directory is made,
    have hreach : d.reach (archivePlace p r) = .error .notFound := by
      refine Disk.reach_of_missing (m := p.length + 2) (by omega) (by simp [archivePlace])
        (fun k _ hk => ?_) (by rw [take_archivePlace, hn])
      rw [archivePlace_eq_append, List.take_append_of_le_length (by simp; omega)]
      exact dirs_above_archiveDir hs hf k (by simp; omega)
    obtain ⟨d1, hm⟩ := Disk.makeDirs_ok (fun k _ hk => dirs_above_archiveDir hs hf k hk)
      (fun j h => by simp [hn] at h)
    have hplainD : ∀ s ∈ p ++ [r.sectionName, Archive.dirName], Path.Plain s := fun s hs' =>
      hplain s (by rw [archivePlace_eq_append]; exact List.mem_append_left _ hs')
    obtain ⟨hs1, -, hn1⟩ := Disk.makeDirs_eq_ok hs hplainD hm
    -- making it changed the archive directory alone: the places above it are directories
    have hmade : ∀ q, d1.node? q =
        if q = p ++ [r.sectionName, Archive.dirName] then some .dir else d.node? q := by
      intro q
      rw [hn1 q]
      by_cases hq : q = p ++ [r.sectionName, Archive.dirName]
      · subst hq
        simp [hn]
      · rw [if_neg hq, if_neg]
        rintro ⟨-, hqD, hqn⟩
        have hlt : q.length < (p ++ [r.sectionName, Archive.dirName]).length :=
          Nat.lt_of_le_of_ne hqD.length_le fun hl => hq (hqD.eq_of_length hl)
        have hdir := dirs_above_archiveDir hs hf q.length hlt
        rw [← List.prefix_iff_eq_take.1 hqD, hqn] at hdir
        cases hdir
    have hf1 : d1.node? (livePlace p r) = some (.file i) := by rw [hmade, if_neg hLD, hf]
    have hA1 : d1.node? (archivePlace p r) ≠ some .dir := by rw [hmade, if_neg hAD]; exact hA
    have hreach1 : d1.reach (archivePlace p r) = .ok () := by
      rw [archivePlace_eq_append]
      exact hs1.reach_append (by rw [hmade, if_pos rfl]) r.id
    obtain ⟨d2, hmv⟩ := Disk.rename_file_ok hs1 hf1 hreach1 hpre hA1
    obtain ⟨-, -, hnode⟩ := Disk.rename_file hs1 hf1 hplain hmv
    refine ⟨d2, by simp [Disk.rename_of_reach hs hf hreach, hm, hmv, bind, Except.bind, pure,
      Except.pure], (hk.makeDirs hm).rename hmv, fun q => ?_⟩
    rw [hnode q, hmade q, reclaimedNode]
    by_cases hqA : q = archivePlace p r
    · simp [hqA, Ne.symm hLA, hf]
    · by_cases hqL : q = livePlace p r <;> simp [hqA, hqL, hLA]
  · -- the archive directory is there: the move succeeds
    have hreach : d.reach (archivePlace p r) = .ok () := by
      rw [archivePlace_eq_append]
      exact hs.reach_append hn r.id
    obtain ⟨d', hmv⟩ := Disk.rename_file_ok hs hf hreach hpre hA
    obtain ⟨-, -, hnode⟩ := Disk.rename_file hs hf hplain hmv
    refine ⟨d', by rw [hmv], hk.rename hmv, fun q => ?_⟩
    rw [hnode q, reclaimedNode]
    by_cases hqA : q = archivePlace p r
    · simp [hqA, Ne.symm hLA, hf]
    · by_cases hqL : q = livePlace p r
      · simp [hqL, hLA]
      · by_cases hqD : q = p ++ [r.sectionName, Archive.dirName]
        · simp [hqD, hn, Ne.symm hLD, Ne.symm hAD]
        · simp [hqA, hqL, hqD]
  · exact absurd hn (hD j)

theorem removeFile_live (hs : d.Sound) (hf : d.node? (livePlace p r) = some (.file i)) :
    d.removeFile (livePlace p r) = .ok (d.drop (livePlace p r)) ∧
      ∀ q, (d.drop (livePlace p r)).node? q = reclaimedNode d false p r q := by
  have hrm : d.removeFile (livePlace p r) = .ok (d.drop (livePlace p r)) := by
    simp [Disk.removeFile, Disk.lookup, hs.reach hf, hf, bind, Except.bind, pure, Except.pure]
  obtain ⟨-, -, -, hnode⟩ := Disk.removeFile_eq_ok hs hrm
  exact ⟨hrm, fun q => by rw [hnode q, reclaimedNode]; simp⟩

theorem archiveFile_of_isArchived {path : String} (h : Archive.isArchived path = true) :
    archiveFile d path = .ok (false, d) := by
  rw [archiveFile, if_pos h]
  rfl

theorem archiveFile_of_archived (hp : place? box.root = some p) (hr : r.Plain)
    (hsec : r.sectionName = Archive.dirName) : archiveFile d (box.claimPath r) = .ok (false, d) :=
  archiveFile_of_isArchived (by rw [Container.isArchived_claimPath hp hr, hsec, beq_self_eq_true])

end Archiving

/-! ## One claim -/

/-- What a cleanup meets with a claim it finds. -/
inductive Reclaim where
  /-- The claim has claimants or is writable, and is left alone. -/
  | inUse
  /-- Its destruction cannot begin, or, with archiving on, it lies in a directory named like the
  archive directory: nothing is done. -/
  | left
  /-- Its file was archived or removed. -/
  | reclaimed
  /-- Archiving it failed: something stood in the way. -/
  | failed
  deriving DecidableEq, Repr

/-- What a cleanup of the store `s` meets with the claim `c` of a container rooted at `p`. -/
def Store.reclaim (s : Store) (p : Place) (c : Resource) : Reclaim :=
  if s.repo.tracker.inUse c then .inUse
  else if (s.repo.tracker.state c).isDestroyed then .left
  else if !s.repo.settings.archiveEnabled then .reclaimed
  else if c.sectionName = Archive.dirName then .left
  else if archiveBlocked s.host.disk p c then .failed
  else .reclaimed

/-- The answer of archiving or removal that an outcome stands for. -/
def Reclaim.Answers : Reclaim → Except StoreError Bool → Prop
  | .reclaimed, o => o = .ok true
  | .left, o => o = .ok false
  | .failed, o => ∃ e, o = .error e
  | .inUse, _ => False

/-- Handing the claim `c` of a container rooted at `p` to archiving or removal took `s` to `s'`
with the answer `o`: the answer its outcome stands for; the settings, the records and the
containers' roots as they were; and the disk changed only for a reclaimed claim, as
`reclaimedNode` says. -/
structure Store.Reclaims (s : Store) (p : Place) (c : Resource) (o : Except StoreError Bool)
    (s' : Store) : Prop where
  answers : (s.reclaim p c).Answers o
  settings : s'.repo.settings = s.repo.settings
  records : ∀ k, s'.repo.tracker.record k = s.repo.tracker.record k
  roots : ∀ name, (s'.repo.container? name).map (·.root) = (s.repo.container? name).map (·.root)
  disk : ∀ q, s'.host.disk.node? q = if s.reclaim p c = .reclaimed then
    reclaimedNode s.host.disk s.repo.settings.archiveEnabled p c q else s.host.disk.node? q
  keyed : s.host.disk.Keyed → s'.host.disk.Keyed

section Outcome

variable {s : Store} {p : Place} {c : Resource} {target : Lifecycle}

theorem reclaim_of_begin (hb : (s.repo.tracker.beginDestruction c target).1 = true) :
    s.reclaim p c = if !s.repo.settings.archiveEnabled then .reclaimed
      else if c.sectionName = Archive.dirName then .left
      else if archiveBlocked s.host.disk p c then .failed else .reclaimed := by
  obtain ⟨h0, hfrozen, -⟩ := (Tracker.beginDestruction_fst _ _ _).1 hb
  simp [Store.reclaim, Tracker.inUse, Tracker.claimants, Tracker.state, h0, hfrozen,
    Lifecycle.isWritable, Lifecycle.isDestroyed]

theorem reclaim_of_not_begin (htarget : target = .archived ∨ target = .removed)
    (huse : s.repo.tracker.inUse c = false)
    (hb : (s.repo.tracker.beginDestruction c target).1 = false) : s.reclaim p c = .left := by
  have hnot := mt (Tracker.beginDestruction_fst s.repo.tracker c target).2 (by simp [hb])
  simp only [Tracker.inUse, Tracker.claimants, Tracker.state, Bool.or_eq_false_iff] at huse
  have h0 : (s.repo.tracker.record c.key).count = 0 := by simpa using huse.1
  -- without claimants and not writable, yet refused: neither frozen, so archived or removed
  have hdest : (s.repo.tracker.record c.key).state.isDestroyed = true := by
    have hnf : (s.repo.tracker.record c.key).state ≠ .frozen := fun h => hnot ⟨h0, h, htarget⟩
    have hw := huse.2
    revert hw hnf
    cases (s.repo.tracker.record c.key).state <;> simp [Lifecycle.isWritable, Lifecycle.isDestroyed]
  simp [Store.reclaim, Tracker.inUse, Tracker.claimants, Tracker.state, h0, huse.2, hdest]

theorem Store.reclaim_of_inUse (h : s.repo.tracker.inUse c = true) : s.reclaim p c = .inUse := by
  simp [Store.reclaim, h]

theorem Store.archiveBlocked_of_reclaimed (h : s.reclaim p c = .reclaimed)
    (ha : s.repo.settings.archiveEnabled = true) : archiveBlocked s.host.disk p c = false := by
  cases hb : archiveBlocked s.host.disk p c
  · rfl
  · simp only [Store.reclaim, ha, hb, Bool.not_true, Bool.false_eq_true, if_false, if_true] at h
    split_ifs at h

end Outcome

namespace Store.Reclaims

variable {s : Store} {p : Place} {c : Resource} {o : Except StoreError Bool}

theorem of_tracker {t : Tracker} (hans : (s.reclaim p c).Answers o) (hne : s.reclaim p c ≠ .reclaimed)
    (hrec : ∀ k, t.record k = s.repo.tracker.record k) {h : Host} (hdisk : h.disk = s.host.disk) :
    s.Reclaims p c o ⟨{ s.repo with tracker := t }, h⟩ where
  answers := hans
  settings := rfl
  records := hrec
  roots _ := rfl
  disk q := by rw [if_neg hne, hdisk]
  keyed hk := hdisk ▸ hk

end Store.Reclaims

section Listed

variable {W : World} {b : Container} {p : Place} {c : Resource}

/-- Removing a claim a cleanup finds and nothing uses. -/
theorem reclaims_removeResource (hI : Inv W) (hb : b ∈ W.store.repo.containers)
    (hp : place? b.root = some p) (hc : c ∈ b.liveClaims W.store.host.disk)
    (hk : W.store.host.disk.Keyed) (huse : W.store.repo.tracker.inUse c = false)
    (ha : W.store.repo.settings.archiveEnabled = false) :
    W.store.Reclaims p c ((Action.removeResource c).exec W.store).1
      ((Action.removeResource c).exec W.store).2 := by
  obtain ⟨hcont, -, -, i, hf⟩ := (Container.mem_liveClaims hI.sound hk hp).1 hc
  have hbox : W.store.repo.container? c.container = some b := by
    rw [hcont]
    exact hI.layout.find?_name hb
  cases hbegin : (W.store.repo.tracker.beginDestruction c .removed).1 with
  | false =>
    have hleft := reclaim_of_not_begin (p := p) (.inr rfl) huse hbegin
    rw [Action.exec_removeResource_of_not_begin _ hbox hbegin]
    exact .of_tracker (by rw [hleft]; rfl) (by rw [hleft]; decide)
      (fun _ => Tracker.record_of_not_begin _ _ _ hbegin) rfl
  | true =>
    have hrec : W.store.reclaim p c = .reclaimed := by rw [reclaim_of_begin hbegin, ha]; rfl
    obtain ⟨hrm, hnode⟩ := removeFile_live (p := p) hI.sound hf
    rw [Action.exec_removeResource_of_begin _ hbox hbegin (hI.streamOf?_of_begin hbegin)]
    simp only [removeFileAt_claimPath hp (Action.plain_of_liveClaims hI.sound hc), hrm]
    exact { answers := by rw [hrec]; rfl
            settings := rfl
            records := fun _ => Tracker.record_finish_of_begin _ _ _ hbegin
            roots := fun _ => rfl
            disk := fun q => by rw [if_pos hrec, ha]; exact hnode q
            keyed := fun hk => hk.drop _ }

/-- Archiving a claim a cleanup finds and nothing uses. -/
theorem reclaims_archive (hI : Inv W) (hb : b ∈ W.store.repo.containers)
    (hp : place? b.root = some p) (hc : c ∈ b.liveClaims W.store.host.disk)
    (hk : W.store.host.disk.Keyed) (huse : W.store.repo.tracker.inUse c = false)
    (ha : W.store.repo.settings.archiveEnabled = true) :
    W.store.Reclaims p c ((Action.archive c).exec W.store).1 ((Action.archive c).exec W.store).2 := by
  obtain ⟨hcont, -, hid, i, hf⟩ := (Container.mem_liveClaims hI.sound hk hp).1 hc
  have hr := Action.plain_of_liveClaims hI.sound hc
  have hbox : W.store.repo.container? c.container = some b := by
    rw [hcont]
    exact hI.layout.find?_name hb
  cases hbegin : (W.store.repo.tracker.beginDestruction c .archived).1 with
  | false =>
    have hleft := reclaim_of_not_begin (p := p) (.inl rfl) huse hbegin
    rw [Action.exec_archive_of_not_begin _ ha hbox hbegin]
    exact .of_tracker (by rw [hleft]; rfl) (by rw [hleft]; decide)
      (fun _ => Tracker.record_of_not_begin _ _ _ hbegin) rfl
  | true =>
    have hfinish : ∀ k, ((W.store.repo.tracker.beginDestruction c .archived).2.finishDestruction
        c).record k = W.store.repo.tracker.record k := fun _ => Tracker.record_finish_of_begin _ _ _ hbegin
    rw [Action.exec_archive_of_begin _ ha hbox hbegin (hI.streamOf?_of_begin hbegin)]
    by_cases hsec : c.sectionName = Archive.dirName
    · -- a file in a directory named like the archive directory stays where it is
      have hleft : W.store.reclaim p c = .left := by rw [reclaim_of_begin hbegin, ha]; simp [hsec]
      simp only [archiveFile_of_archived hp hr hsec]
      exact .of_tracker (by rw [hleft]; rfl) (by rw [hleft]; decide) hfinish rfl
    cases hblocked : archiveBlocked W.store.host.disk p c
    · -- nothing in the way: the file moves to its archive place
      have hrec : W.store.reclaim p c = .reclaimed := by
        rw [reclaim_of_begin hbegin, ha]
        simp [hsec, hblocked]
      obtain ⟨d', harch, hk', hnode⟩ :=
        archiveFile_of_clear hI.sound hk hp hr hsec hid hf hblocked
      simp only [harch, if_true]
      exact { answers := by rw [hrec]; rfl
              settings := rfl
              records := hfinish
              roots := Repo.root_setContainer (c := { b with gate := b.gate.incArchived })
                (b := b) (hI.layout.find?_name hb) rfl
              disk := fun q => by rw [if_pos hrec, ha]; exact hnode q
              keyed := fun _ => hk' }
    · -- something in the way: archiving fails and the destruction is undone
      have hfail : W.store.reclaim p c = .failed := by
        rw [reclaim_of_begin hbegin, ha]
        simp [hsec, hblocked]
      obtain ⟨e, harch⟩ := archiveFile_of_blocked hI.sound hp hr hsec hf hblocked
      simp only [harch]
      exact .of_tracker (by rw [hfail]; exact ⟨_, rfl⟩) (by rw [hfail]; decide)
        (fun _ => Tracker.record_abort_of_begin _ _ _ hbegin) rfl

end Listed

/-! ## Places of different claims -/

section Apart

variable {cs : List Container} {b b' : Container} {p p' : Place} {c : Resource} {sec id : String}

theorem Layout.live_eq (hL : Layout cs) (hb : b ∈ cs) (hb' : b' ∈ cs) (hp : place? b.root = some p)
    (hp' : place? b'.root = some p') (h : p' ++ [sec, id] = livePlace p c) :
    b' = b ∧ p' = p ∧ sec = c.sectionName ∧ id = c.id := by
  obtain ⟨rfl, rfl, hu⟩ := hL.eq_same hb' hb hp' hp h
  simp only [List.cons.injEq, and_true] at hu
  exact ⟨rfl, rfl, hu⟩

theorem Layout.archive_eq (hL : Layout cs) (hb : b ∈ cs) (hb' : b' ∈ cs)
    (hp : place? b.root = some p) (hp' : place? b'.root = some p') {c' : Resource}
    (h : archivePlace p' c' = archivePlace p c) :
    b' = b ∧ p' = p ∧ c'.sectionName = c.sectionName ∧ c'.id = c.id := by
  obtain ⟨rfl, rfl, hu⟩ := hL.eq_same hb' hb hp' hp h
  simp only [List.cons.injEq, and_true, true_and] at hu
  exact ⟨rfl, rfl, hu⟩

theorem Layout.live_ne_archive (hL : Layout cs) (hb : b ∈ cs) (hb' : b' ∈ cs)
    (hp : place? b.root = some p) (hp' : place? b'.root = some p') (c' : Resource) :
    p' ++ [sec, id] ≠ archivePlace p c' := by
  intro h
  obtain ⟨-, -, hu⟩ := hL.eq_same hb' hb hp' hp h
  simp at hu

theorem Layout.live_ne_archiveDir (hL : Layout cs) (hb : b ∈ cs) (hb' : b' ∈ cs)
    (hp : place? b.root = some p) (hp' : place? b'.root = some p') (hid : id ≠ Archive.dirName)
    (sec' : String) : p' ++ [sec, id] ≠ p ++ [sec', Archive.dirName] := by
  intro h
  obtain ⟨-, -, hu⟩ := hL.eq_same hb' hb hp' hp h
  simp only [List.cons.injEq, and_true] at hu
  exact hid hu.2

theorem Layout.archive_ne_archiveDir (hL : Layout cs) (hb : b ∈ cs) (hb' : b' ∈ cs)
    (hp : place? b.root = some p) (hp' : place? b'.root = some p') (c' : Resource) (sec' : String) :
    archivePlace p' c' ≠ p ++ [sec', Archive.dirName] := by
  intro h
  obtain ⟨-, -, hu⟩ := hL.eq_same hb' hb hp' hp h
  simp at hu

theorem Layout.eq_of_listed (hL : Layout cs) {d : Disk} (hs : d.Sound) (hk : d.Keyed) (hb : b ∈ cs)
    (hb' : b' ∈ cs) (hp : place? b.root = some p) (hp' : place? b'.root = some p')
    (hc : c ∈ b.liveClaims d) (hc' : c ∈ b'.liveClaims d) : b = b' ∧ p = p' := by
  obtain ⟨hcont, -⟩ := (Container.mem_liveClaims hs hk hp).1 hc
  obtain ⟨hcont', -⟩ := (Container.mem_liveClaims hs hk hp').1 hc'
  obtain rfl : b = b' := List.inj_on_of_nodup_map hL.names hb hb' (hcont.symm.trans hcont')
  exact ⟨rfl, Option.some.inj (hp.symm.trans hp')⟩

/-- Reclaiming the claim `c`, with nothing in the way of archiving it, leaves what stands in the
way of archiving `c'` when the archive place of `c'` is none of the places of `c` and its archive
directory is neither the live nor the archive place of `c`. -/
theorem archiveBlocked_of_reclaimedNode {d d' : Disk} {a : Bool} {c' : Resource}
    (hd : ∀ q, d'.node? q = reclaimedNode d a p c q) (hclear : a = true → archiveBlocked d p c = false)
    (hA : reclaimedNode d a p c (archivePlace p' c') = d.node? (archivePlace p' c'))
    (hL : p' ++ [c'.sectionName, Archive.dirName] ≠ livePlace p c)
    (hAD : p' ++ [c'.sectionName, Archive.dirName] ≠ archivePlace p c) :
    archiveBlocked d' p' c' = archiveBlocked d p' c' := by
  have hD : d'.node? (p' ++ [c'.sectionName, Archive.dirName]) =
      if a = true ∧ p' ++ [c'.sectionName, Archive.dirName] = p ++ [c.sectionName, Archive.dirName]
      then some .dir else d.node? (p' ++ [c'.sectionName, Archive.dirName]) := by
    rw [hd, reclaimedNode, if_neg hL, if_neg fun h => hAD h.2]
  unfold archiveBlocked
  rw [hD, hd, hA]
  split_ifs with hsame
  · -- the archive directory the file of `c` went into: a directory now, and no file before
    obtain ⟨ha, heq⟩ := hsame
    have hnf := (archiveBlocked_eq_false.1 (hclear ha)).1
    rw [← heq] at hnf
    rcases hn : d.node? (p' ++ [c'.sectionName, Archive.dirName]) with _ | _ | j
    · rfl
    · rfl
    · exact absurd hn (hnf j)
  · rfl

end Apart

/-! ## Claim after claim -/

/-- Where a cleanup of `W`'s store stands at the store `s`, with the claims `done` handled: the
invariant holds and the disk is keyed; settings, records and roots are as at the start; each live
place of a container holds what it held at the start, but for the file of a claim done and
reclaimed, which is gone; the file of a claim done and archived lies at its archive place; and
what stands in the way of archiving a claim not yet done stood there at the start. -/
structure Swept (W : World) (done : List Resource) (s : Store) : Prop where
  inv : Inv { W with store := s }
  keyed : s.host.disk.Keyed
  settings : s.repo.settings = W.store.repo.settings
  records : ∀ k, s.repo.tracker.record k = W.store.repo.tracker.record k
  roots : ∀ name, (s.repo.container? name).map (·.root) = (W.store.repo.container? name).map (·.root)
  live : ∀ b ∈ W.store.repo.containers, ∀ p, place? b.root = some p → ∀ sec id,
    id ≠ Archive.dirName → s.host.disk.node? (p ++ [sec, id]) =
      if (⟨b.name, sec, id, false⟩ : Resource) ∈ done ∧
        W.store.reclaim p ⟨b.name, sec, id, false⟩ = .reclaimed
      then none else W.store.host.disk.node? (p ++ [sec, id])
  archived : ∀ b ∈ W.store.repo.containers, ∀ p, place? b.root = some p →
    ∀ c ∈ b.liveClaims W.store.host.disk, c ∈ done → W.store.reclaim p c = .reclaimed →
      W.store.repo.settings.archiveEnabled = true →
        s.host.disk.node? (archivePlace p c) = W.store.host.disk.node? (livePlace p c)
  blocked : ∀ b ∈ W.store.repo.containers, ∀ p, place? b.root = some p →
    ∀ c ∈ b.liveClaims W.store.host.disk, c ∉ done →
      archiveBlocked s.host.disk p c = archiveBlocked W.store.host.disk p c

theorem Claim.Resource.eq_mk {c : Resource} {n : String} (hcont : c.container = n)
    (hloss : c.lossTolerant = false) : (⟨n, c.sectionName, c.id, false⟩ : Resource) = c := by
  cases c
  simp only at hcont hloss
  rw [hcont, hloss]

namespace Swept

variable {W : World} {done : List Resource} {s : Store} {b : Container} {p : Place} {c : Resource}

theorem start (hI : Inv W) (hk : W.store.host.disk.Keyed) : Swept W [] W.store where
  inv := hI
  keyed := hk
  settings := rfl
  records _ := rfl
  roots _ := rfl
  live _ _ _ _ _ _ _ := by simp
  archived _ _ _ _ _ _ h := by cases h
  blocked _ _ _ _ _ _ _ := rfl

theorem reclaim_eq (hS : Swept W done s) (hb : b ∈ W.store.repo.containers)
    (hp : place? b.root = some p) (hc : c ∈ b.liveClaims W.store.host.disk) (hnew : c ∉ done) :
    s.reclaim p c = W.store.reclaim p c := by
  simp only [Store.reclaim, Tracker.inUse, Tracker.claimants, Tracker.state, hS.records, hS.settings,
    hS.blocked b hb p hp c hc hnew]
  rfl

theorem liveClaims_eq (hS : Swept W done s) (hI : Inv W) (hk : W.store.host.disk.Keyed)
    (hb : b ∈ W.store.repo.containers) (hp : place? b.root = some p) :
    b.liveClaims s.host.disk = (b.liveClaims W.store.host.disk).filter
      fun c => !decide (c ∈ done ∧ W.store.reclaim p c = .reclaimed) := by
  refine Container.liveClaims_eq_filter hk hS.keyed _ fun c => ?_
  rw [Container.mem_liveClaims hS.inv.sound hS.keyed hp, Container.mem_liveClaims hI.sound hk hp]
  constructor
  · rintro ⟨hcont, hloss, hid, i, hi⟩
    rw [livePlace, hS.live b hb p hp _ _ hid, Resource.eq_mk hcont hloss] at hi
    split at hi
    · cases hi
    · next hnot =>
      exact ⟨⟨hcont, hloss, hid, i, hi⟩, by simpa only [Bool.not_eq_true', decide_eq_false_iff_not]⟩
  · rintro ⟨⟨hcont, hloss, hid, i, hi⟩, hP⟩
    refine ⟨hcont, hloss, hid, i, ?_⟩
    rw [livePlace, hS.live b hb p hp _ _ hid, Resource.eq_mk hcont hloss,
      if_neg (by simpa only [Bool.not_eq_true', decide_eq_false_iff_not] using hP)]
    exact hi

theorem inUse_eq (hS : Swept W done s) : s.repo.tracker.inUse c = W.store.repo.tracker.inUse c := by
  simp only [Tracker.inUse, Tracker.claimants, Tracker.state, hS.records]
  rfl

/-- A claim in use is left: nothing changes. -/
theorem skip (hS : Swept W done s) (huse : W.store.repo.tracker.inUse c = true) :
    Swept W (done ++ [c]) s where
  inv := hS.inv
  keyed := hS.keyed
  settings := hS.settings
  records := hS.records
  roots := hS.roots
  live b hb p hp sec id hid := by
    rw [hS.live b hb p hp sec id hid]
    by_cases hx : (⟨b.name, sec, id, false⟩ : Resource) = c
    · rw [hx, Store.reclaim_of_inUse huse]
      simp
    · simp [hx]
  archived b hb p hp c' hc' hdone hR ha := by
    rcases List.mem_append.1 hdone with hdone | hdone
    · exact hS.archived b hb p hp c' hc' hdone hR ha
    · rw [List.mem_singleton.1 hdone, Store.reclaim_of_inUse huse] at hR
      cases hR
  blocked b hb p hp c' hc' hnew :=
    hS.blocked b hb p hp c' hc' fun h => hnew (List.mem_append_left _ h)

theorem reclaimedNode_archivePlace (hI : Inv W) (hk : W.store.host.disk.Keyed)
    (hb : b ∈ W.store.repo.containers) (hp : place? b.root = some p)
    (hc : c ∈ b.liveClaims W.store.host.disk) {b' : Container} {p' : Place} {c' : Resource}
    (hb' : b' ∈ W.store.repo.containers) (hp' : place? b'.root = some p')
    (hc' : c' ∈ b'.liveClaims W.store.host.disk) (hne : c' ≠ c) (d : Disk) (a : Bool) :
    reclaimedNode d a p c (archivePlace p' c') = d.node? (archivePlace p' c') := by
  refine reclaimedNode_of_ne (Ne.symm (hI.layout.live_ne_archive hb' hb hp' hp c')) (fun h => hne ?_)
    (hI.layout.archive_ne_archiveDir hb hb' hp hp' c' _)
  obtain ⟨rfl, rfl, hsec, hid⟩ := hI.layout.archive_eq hb hb' hp hp' h
  obtain ⟨hcont, hloss, -⟩ := (Container.mem_liveClaims hI.sound hk hp).1 hc
  obtain ⟨hcont', hloss', -⟩ := (Container.mem_liveClaims hI.sound hk hp).1 hc'
  rw [← Resource.eq_mk hcont hloss, ← Resource.eq_mk hcont' hloss', hsec, hid]

/-- Handing a listed claim not yet done to archiving or removal: its file goes as its outcome at
the start says, and nothing another claim's turn reads changes. -/
theorem reclaims (hS : Swept W done s) (hI : Inv W) (hk : W.store.host.disk.Keyed)
    (hb : b ∈ W.store.repo.containers) (hp : place? b.root = some p)
    (hc : c ∈ b.liveClaims W.store.host.disk) (hnew : c ∉ done) {o : Except StoreError Bool}
    {s' : Store} (hr : s.Reclaims p c o s') (hI' : Inv { W with store := s' }) :
    Swept W (done ++ [c]) s' := by
  obtain ⟨hcont, hloss, hcid, -⟩ := (Container.mem_liveClaims hI.sound hk hp).1 hc
  have hfate := hS.reclaim_eq hb hp hc hnew
  have hdisk : ∀ q, s'.host.disk.node? q = if W.store.reclaim p c = .reclaimed then
      reclaimedNode s.host.disk W.store.repo.settings.archiveEnabled p c q
      else s.host.disk.node? q := by
    intro q
    rw [hr.disk, hfate, hS.settings]
  have hlive : s.host.disk.node? (p ++ [c.sectionName, c.id]) =
      W.store.host.disk.node? (p ++ [c.sectionName, c.id]) := by
    rw [hS.live b hb p hp _ _ hcid, Resource.eq_mk hcont hloss, if_neg fun h => hnew h.1]
  refine ⟨hI', hr.keyed hS.keyed, hr.settings.trans hS.settings,
    fun k => (hr.records k).trans (hS.records k), fun name => (hr.roots name).trans (hS.roots name),
    ?live, ?archived, ?blocked⟩
  case live =>
    intro b' hb' p' hp' sec id hid
    by_cases hx : (⟨b'.name, sec, id, false⟩ : Resource) = c
    · -- the live place of `c` itself, emptied when `c` is reclaimed
      obtain rfl : b = b' :=
        List.inj_on_of_nodup_map hI.layout.names hb hb' (by rw [← hcont, ← hx])
      obtain rfl : p = p' := Option.some.inj (hp.symm.trans hp')
      obtain rfl : sec = c.sectionName := by rw [← hx]
      obtain rfl : id = c.id := by rw [← hx]
      rw [hx, hdisk]
      by_cases hR : W.store.reclaim p c = .reclaimed
      · simp [hR, reclaimedNode, livePlace]
      · simp [hR, hlive]
    · have hL : p' ++ [sec, id] ≠ livePlace p c := fun h => hx (by
        obtain ⟨rfl, rfl, rfl, rfl⟩ := hI.layout.live_eq hb hb' hp hp' h
        exact Resource.eq_mk hcont hloss)
      rw [hdisk, reclaimedNode_of_ne hL (hI.layout.live_ne_archive hb hb' hp hp' c)
        (hI.layout.live_ne_archiveDir hb hb' hp hp' hid _), ite_self, hS.live b' hb' p' hp' sec id hid]
      simp [hx]
  case archived =>
    intro b' hb' p' hp' c' hc' hdone hR ha
    rcases List.mem_append.1 hdone with hdone | hdone
    · have hne : c' ≠ c := fun h => hnew (h ▸ hdone)
      rw [hdisk, reclaimedNode_archivePlace hI hk hb hp hc hb' hp' hc' hne, ite_self]
      exact hS.archived b' hb' p' hp' c' hc' hdone hR ha
    · -- `c` itself: its file went from its live place to its archive place
      obtain rfl : c = c' := (List.mem_singleton.1 hdone).symm
      obtain ⟨rfl, rfl⟩ := hI.layout.eq_of_listed hI.sound hk hb hb' hp hp' hc hc'
      have hLA : archivePlace p c ≠ livePlace p c := by simp [livePlace, archivePlace]
      rw [hdisk, if_pos hR, ha, reclaimedNode, if_neg hLA, if_pos ⟨rfl, rfl⟩]
      exact hlive
  case blocked =>
    intro b' hb' p' hp' c' hc' hnew'
    have hne : c' ≠ c := fun h => hnew' (h ▸ List.mem_append_right _ (List.mem_singleton_self _))
    rw [← hS.blocked b' hb' p' hp' c' hc' fun h => hnew' (List.mem_append_left _ h)]
    by_cases hR : W.store.reclaim p c = .reclaimed
    · refine archiveBlocked_of_reclaimedNode (fun q => by rw [hdisk, if_pos hR]) (fun ha => ?_)
        (reclaimedNode_archivePlace hI hk hb hp hc hb' hp' hc' hne _ _)
        (Ne.symm (hI.layout.live_ne_archiveDir hb' hb hp' hp hcid _))
        (Ne.symm (hI.layout.archive_ne_archiveDir hb' hb hp' hp c _))
      exact Store.archiveBlocked_of_reclaimed (hfate.trans hR) (by rw [hS.settings]; exact ha)
    · simp only [archiveBlocked, hdisk, if_neg hR]

theorem container (hS : Swept W done s) (hI : Inv W) (hk : W.store.host.disk.Keyed)
    (hb : b ∈ W.store.repo.containers) (hp : place? b.root = some p) :
    ∃ box, s.repo.container? b.name = some box ∧ box.root = b.root ∧
      box.liveClaims s.host.disk = (b.liveClaims W.store.host.disk).filter
        fun c => !decide (c ∈ done ∧ W.store.reclaim p c = .reclaimed) := by
  have h := hS.roots b.name
  rw [show W.store.repo.container? b.name = some b from hI.layout.find?_name hb] at h
  cases hbox : s.repo.container? b.name with
  | none =>
    rw [hbox] at h
    cases h
  | some box =>
    rw [hbox] at h
    have hroot : box.root = b.root := Option.some.inj h
    refine ⟨box, rfl, hroot, ?_⟩
    rw [Container.liveClaims_congr (Repo.mem_of_container? hbox).2 hroot, hS.liveClaims_eq hI hk hb hp]

/-- Archiving (or, with archiving off, removing) a listed claim not yet done and not in use, at
the store a cleanup has reached, answers as the claim's outcome at the start says. -/
theorem dispose (hS : Swept W done s) (hI : Inv W) (hk : W.store.host.disk.Keyed)
    (hb : b ∈ W.store.repo.containers) (hp : place? b.root = some p)
    (hc : c ∈ b.liveClaims W.store.host.disk) (hnew : c ∉ done)
    (huse : W.store.repo.tracker.inUse c = false) :
    (W.store.reclaim p c).Answers ((if W.store.repo.settings.archiveEnabled then Action.archive c
        else Action.removeResource c).exec s).1 ∧
      Swept W (done ++ [c]) ((if W.store.repo.settings.archiveEnabled then Action.archive c
        else Action.removeResource c).exec s).2 := by
  obtain ⟨box, hbox, hroot, hlist⟩ := hS.container hI hk hb hp
  have hmem := (Repo.mem_of_container? hbox).1
  have hpb : place? box.root = some p := hroot ▸ hp
  have hcb : c ∈ box.liveClaims s.host.disk := by
    rw [hlist]
    exact List.mem_filter.2 ⟨hc, by simp [hnew]⟩
  have huse' : s.repo.tracker.inUse c = false := hS.inUse_eq.trans huse
  have hr := Action.plain_of_liveClaims hI.sound hc
  rw [← hS.reclaim_eq hb hp hc hnew]
  cases ha : W.store.repo.settings.archiveEnabled with
  | true =>
    have hR := reclaims_archive (W := { W with store := s }) hS.inv hmem hpb hcb hS.keyed huse'
      (by rw [hS.settings]; exact ha)
    rw [if_pos rfl]
    exact ⟨hR.answers, hS.reclaims hI hk hb hp hc hnew hR (Action.keeps_archive hr _ hS.inv)⟩
  | false =>
    have hR := reclaims_removeResource (W := { W with store := s }) hS.inv hmem hpb hcb hS.keyed
      huse' (by rw [hS.settings]; exact ha)
    rw [if_neg Bool.false_ne_true]
    exact ⟨hR.answers, hS.reclaims hI hk hb hp hc hnew hR (Action.keeps_removeResource hr _ hS.inv)⟩

end Swept

/-! ## The whole cleanup -/

/-- A loop over a list runs to its end, every pass going on, when each pass keeps `P` of the
items passed so far, the value carried and the store; what follows the loop then runs from where
it ended. -/
theorem Action.exec_forIn_of_passes {γ β δ : Type} {f : γ → β → Action (ForInStep β)} (l : List γ)
    (P : List γ → β → Store → Prop)
    (hpass : ∀ pre x post, l = pre ++ x :: post → ∀ b s, P pre b s →
      ∃ o s', (f x b).exec s = (.ok o, s') ∧ ∃ b', o = .yield b' ∧ P (pre ++ [x]) b' s')
    {b : β} {s : Store} (h0 : P [] b s) {g : β → Action δ} {Q : δ → Store → Prop}
    (hend : ∀ b s, P l b s → ∃ d s', (g b).exec s = (.ok d, s') ∧ Q d s') :
    ∃ d s', (forIn l b f >>= g).exec s = (.ok d, s') ∧ Q d s' := by
  -- the loop over what is left after the items `pre` passed
  suffices h : ∀ post pre, l = pre ++ post → ∀ b s, P pre b s →
      ∃ b' s', (forIn post b f).exec s = (.ok b', s') ∧ P l b' s' by
    obtain ⟨b', s', hrun, hP⟩ := h l [] rfl b s h0
    rw [Action.exec_bind_ok _ hrun]
    exact hend b' s' hP
  intro post
  induction post with
  | nil =>
    intro pre hl b s hP
    exact ⟨b, s, rfl, by rwa [hl, List.append_nil]⟩
  | cons x post ih =>
    intro pre hl b s hP
    obtain ⟨_, s', hx, b', rfl, hP'⟩ := hpass pre x post hl b s hP
    rw [List.forIn_cons, Action.exec_bind, hx]
    exact ih (pre ++ [x]) (by rw [hl, List.append_assoc, List.singleton_append]) b' s' hP'

/-- What a cleanup of `s` meets with each claim the container `b` lists, in order. -/
def Store.fates (s : Store) (b : Container) : List Reclaim :=
  match place? b.root with
  | some p => (b.liveClaims s.host.disk).map (s.reclaim p)
  | none => []

/-- The report of a cleanup whose claims met `fates`: every claim scanned, each reclaimed one
counted as archived or as removed as archiving is on or off, each failed one as failed. -/
def Cleanup.ofFates (archiving : Bool) (fates : List Reclaim) : Cleanup where
  scanned := fates.length
  archived := if archiving then fates.count .reclaimed else 0
  removed := if archiving then 0 else fates.count .reclaimed
  failed := fates.count .failed

theorem Cleanup.ofFates_concat (a : Bool) (fs : List Reclaim) (f : Reclaim) :
    Cleanup.ofFates a (fs ++ [f]) =
      { scanned := (ofFates a fs).scanned + 1
        archived := (ofFates a fs).archived + if a ∧ f = .reclaimed then 1 else 0
        removed := (ofFates a fs).removed + if !a ∧ f = .reclaimed then 1 else 0
        failed := (ofFates a fs).failed + if f = .failed then 1 else 0 } := by
  cases a <;> cases f <;> simp [ofFates, List.count_append]

section Sweep

variable {W : World}

theorem listed_not_before (hI : Inv W) (hk : W.store.host.disk.Keyed) {pre post : List Container}
    {b : Container} (hl : W.store.repo.containers = pre ++ b :: post) {c : Resource}
    (hc : c ∈ b.liveClaims W.store.host.disk) :
    c ∉ pre.flatMap fun b => b.liveClaims W.store.host.disk := by
  intro hmem
  obtain ⟨b', hb', hc'⟩ := List.mem_flatMap.1 hmem
  have hb : b ∈ W.store.repo.containers := by rw [hl]; simp
  have hbm' : b' ∈ W.store.repo.containers := by rw [hl]; exact List.mem_append_left _ hb'
  obtain ⟨p, hp⟩ := Option.isSome_iff_exists.1 (hI.layout.rooted b hb)
  obtain ⟨p', hp'⟩ := Option.isSome_iff_exists.1 (hI.layout.rooted b' hbm')
  obtain ⟨rfl, -⟩ := hI.layout.eq_of_listed hI.sound hk hbm' hb hp' hp hc' hc
  have hnd := hI.layout.names.of_map _
  rw [hl] at hnd
  exact List.disjoint_of_nodup_append hnd hb' List.mem_cons_self

theorem turn_not_done (hI : Inv W) (hk : W.store.host.disk.Keyed) {pre post : List Container}
    {b : Container} (hl : W.store.repo.containers = pre ++ b :: post) {pre' post' : List Resource}
    {c : Resource} (hl' : b.liveClaims W.store.host.disk = pre' ++ c :: post') :
    c ∉ (pre.flatMap fun b => b.liveClaims W.store.host.disk) ++ pre' := by
  have hc : c ∈ b.liveClaims W.store.host.disk := by rw [hl']; simp
  rw [List.mem_append, not_or]
  refine ⟨listed_not_before hI hk hl hc, fun h => ?_⟩
  have hnd : (b.liveClaims W.store.host.disk).Nodup :=
    (Container.liveClaims_sorted hk).imp Resource.Precedes.ne
  rw [hl'] at hnd
  exact List.disjoint_of_nodup_append hnd h List.mem_cons_self

/-- A cleanup runs to its end, reporting the outcomes read off the starting store and leaving
the store swept of every claim the containers listed at the start. -/
theorem sweep (hI : Inv W) (hk : W.store.host.disk.Keyed) :
    ∃ r s', Action.cleanup.exec W.store = (.ok r, s') ∧
      Swept W (W.store.repo.containers.flatMap fun b => b.liveClaims W.store.host.disk) s' ∧
      r = Cleanup.ofFates W.store.repo.settings.archiveEnabled
        (W.store.repo.containers.flatMap W.store.fates) := by
  unfold Action.cleanup
  rw [Action.exec_bind_ok _ (Action.exec_repo _)]
  dsimp only
  rw [Action.exec_bind_ok _ (Action.exec_repo _), List.forIn_map]
  refine Action.exec_forIn_of_passes (b := {}) W.store.repo.containers
    (fun pre r s => Swept W (pre.flatMap fun b => b.liveClaims W.store.host.disk) s ∧
      r = Cleanup.ofFates W.store.repo.settings.archiveEnabled (pre.flatMap W.store.fates))
    (fun pre b post hl r s hP => ?_) ⟨Swept.start hI hk, by simp [Cleanup.ofFates]⟩
    fun r s hP => ⟨r, s, rfl, hP⟩
  obtain ⟨hS, rfl⟩ := hP
  have hb : b ∈ W.store.repo.containers := by rw [hl]; simp
  obtain ⟨p, hp⟩ := Option.isSome_iff_exists.1 (hI.layout.rooted b hb)
  obtain ⟨box, hbox, -, hfilter⟩ := hS.container hI hk hb hp
  have hlist : box.liveClaims s.host.disk = b.liveClaims W.store.host.disk := by
    rw [hfilter]
    exact List.filter_eq_self.2 fun c hc => by simp [listed_not_before hI hk hl hc]
  have hcont : (Action.container b.name).exec s = (.ok box, s) := by rw [Action.exec_container, hbox]
  rw [Action.exec_bind_ok _ hcont, Action.exec_bind_ok _ (Action.exec_host _), hlist]
  refine Action.exec_forIn_of_passes (b.liveClaims W.store.host.disk)
    (fun pre' r s => Swept W ((pre.flatMap fun b => b.liveClaims W.store.host.disk) ++ pre') s ∧
      r = Cleanup.ofFates W.store.repo.settings.archiveEnabled
        (pre.flatMap W.store.fates ++ pre'.map (W.store.reclaim p)))
    (fun pre' c post' hl' r s hP => ?_) ⟨by simpa using hS, by simp⟩
    fun r s hP => ⟨_, s, rfl, r, rfl, ?_⟩
  · -- the turn of the claim `c`, listed once and not done
    obtain ⟨hS, rfl⟩ := hP
    have hc : c ∈ b.liveClaims W.store.host.disk := by rw [hl']; simp
    have hnew := turn_not_done hI hk hl hl'
    have hreport : ∀ f, W.store.reclaim p c = f →
        Cleanup.ofFates W.store.repo.settings.archiveEnabled
          (pre.flatMap W.store.fates ++ (pre' ++ [c]).map (W.store.reclaim p)) =
        Cleanup.ofFates W.store.repo.settings.archiveEnabled
          (pre.flatMap W.store.fates ++ pre'.map (W.store.reclaim p) ++ [f]) := by
      rintro f rfl
      simp
    rw [Action.exec_bind_ok _ (Action.exec_repo _), hS.inUse_eq]
    cases huse : W.store.repo.tracker.inUse c
    · -- nothing uses the claim: it is handed to archiving or removal
      obtain ⟨hans, hS'⟩ := hS.dispose hI hk hb hp hc hnew huse
      rw [if_neg Bool.false_ne_true, Action.exec_bind_ok _ (Action.exec_attempt _ _)]
      generalize ((if W.store.repo.settings.archiveEnabled = true then Action.archive c
        else Action.removeResource c).exec s) = x at hans hS' ⊢
      obtain ⟨o, s'⟩ := x
      have hS'' : Swept W ((pre.flatMap fun b => b.liveClaims W.store.host.disk) ++ (pre' ++ [c])) s' := by
        simpa using hS'
      cases hf : W.store.reclaim p c <;> rw [hf] at hans
      case inUse => exact hans.elim
      case left =>
        obtain rfl : o = .ok false := hans
        refine ⟨_, s', rfl, _, rfl, hS'', ?_⟩
        rw [hreport _ hf, Cleanup.ofFates_concat]
        simp
      case reclaimed =>
        obtain rfl : o = .ok true := hans
        refine ⟨_, s', rfl, _, rfl, hS'', ?_⟩
        rw [hreport _ hf, Cleanup.ofFates_concat]
        cases W.store.repo.settings.archiveEnabled <;> simp
      case failed =>
        obtain ⟨e, rfl⟩ := hans
        refine ⟨_, s', rfl, _, rfl, hS'', ?_⟩
        rw [hreport _ hf, Cleanup.ofFates_concat]
        simp
    · -- in use: left alone
      rw [if_pos rfl]
      refine ⟨_, s, rfl, _, rfl, by simpa using hS.skip huse, ?_⟩
      rw [hreport _ (Store.reclaim_of_inUse huse), Cleanup.ofFates_concat]
      simp
  obtain ⟨hS', rfl⟩ := hP
  have hfates : W.store.fates b = (b.liveClaims W.store.host.disk).map (W.store.reclaim p) := by
    simp only [Store.fates, hp]
  constructor
  · simpa using hS'
  · simp only [List.flatMap_append, List.flatMap_cons, List.flatMap_nil, List.append_nil, hfates]

theorem exec_activeClaims_of_container {s : Store} {name : String} {box : Container}
    (hbox : s.repo.container? name = some box) :
    (Action.activeClaims name).exec s =
      (.ok ((box.liveClaims s.host.disk).mergeSort fun a b => a.compareKey b != .gt), s) := by
  unfold Action.activeClaims
  rw [Action.exec_bind_ok _ (Action.exec_repo _)]
  simp only [hbox]
  rw [Action.exec_bind_ok _ (Action.exec_host _)]
  rfl

theorem cleanup_report (hI : Inv W) (hk : W.store.host.disk.Keyed) :
    (Action.cleanup.exec W.store).1 = .ok (Cleanup.ofFates W.store.repo.settings.archiveEnabled
      (W.store.repo.containers.flatMap W.store.fates)) := by
  obtain ⟨r, s', hrun, -, rfl⟩ := sweep hI hk
  rw [hrun]

theorem activeClaims_after_cleanup (hI : Inv W) (hk : W.store.host.disk.Keyed) {b : Container}
    (hb : b ∈ W.store.repo.containers) {p : Place} (hp : place? b.root = some p) :
    (Action.activeClaims b.name).exec (Action.cleanup.exec W.store).2 =
      (.ok (((b.liveClaims W.store.host.disk).filter fun c => W.store.reclaim p c != .reclaimed)
        |>.mergeSort fun a b => a.compareKey b != .gt), (Action.cleanup.exec W.store).2) := by
  obtain ⟨r, s', hrun, hS, -⟩ := sweep hI hk
  obtain ⟨box, hbox, -, hlist⟩ := hS.container hI hk hb hp
  rw [hrun, exec_activeClaims_of_container hbox, hlist]
  congr 3
  refine List.filter_congr fun c hc => ?_
  have hdone : c ∈ W.store.repo.containers.flatMap fun b => b.liveClaims W.store.host.disk :=
    List.mem_flatMap.2 ⟨b, hb, hc⟩
  simp only [hdone, true_and]
  cases W.store.reclaim p c <;> rfl

theorem places_after_cleanup (hI : Inv W) (hk : W.store.host.disk.Keyed) {b : Container}
    (hb : b ∈ W.store.repo.containers) {p : Place} (hp : place? b.root = some p) {c : Resource}
    (hc : c ∈ b.liveClaims W.store.host.disk) :
    (Action.cleanup.exec W.store).2.host.disk.node? (livePlace p c) =
        (if W.store.reclaim p c = .reclaimed then none
          else W.store.host.disk.node? (livePlace p c)) ∧
      (W.store.reclaim p c = .reclaimed → W.store.repo.settings.archiveEnabled = true →
        (Action.cleanup.exec W.store).2.host.disk.node? (archivePlace p c) =
          W.store.host.disk.node? (livePlace p c)) := by
  obtain ⟨r, s', hrun, hS, -⟩ := sweep hI hk
  have hdone : c ∈ W.store.repo.containers.flatMap fun b => b.liveClaims W.store.host.disk :=
    List.mem_flatMap.2 ⟨b, hb, hc⟩
  obtain ⟨hcont, hloss, hcid, -⟩ := (Container.mem_liveClaims hI.sound hk hp).1 hc
  have hlive := hS.live b hb p hp c.sectionName c.id hcid
  rw [Resource.eq_mk hcont hloss] at hlive
  rw [hrun]
  exact ⟨by simpa [hdone, livePlace] using hlive, hS.archived b hb p hp c hc hdone⟩

/-- A cleanup reconciles the files under the roots with the claims. Over a world where the
invariant holds and the disk is keyed, each claim the containers list at the start is scanned
and meets what `Store.reclaim` reads off the starting store, and the report counts these
outcomes. Afterwards each container lists, in key order, the claims it listed that were not
reclaimed; the live place of each reclaimed one is empty, the others' hold what they held, and
each file archived lies at its archive place. -/
theorem cleanup_reconciles (hI : Inv W) (hk : W.store.host.disk.Keyed) :
    (Action.cleanup.exec W.store).1 = .ok (Cleanup.ofFates W.store.repo.settings.archiveEnabled
        (W.store.repo.containers.flatMap W.store.fates)) ∧
    ∀ b ∈ W.store.repo.containers, ∀ p, place? b.root = some p →
      (Action.activeClaims b.name).exec (Action.cleanup.exec W.store).2 =
        (.ok (((b.liveClaims W.store.host.disk).filter fun c => W.store.reclaim p c != .reclaimed)
          |>.mergeSort fun a b => a.compareKey b != .gt), (Action.cleanup.exec W.store).2) ∧
      ∀ c ∈ b.liveClaims W.store.host.disk,
        (Action.cleanup.exec W.store).2.host.disk.node? (livePlace p c) =
          (if W.store.reclaim p c = .reclaimed then none
            else W.store.host.disk.node? (livePlace p c)) ∧
        (W.store.reclaim p c = .reclaimed → W.store.repo.settings.archiveEnabled = true →
          (Action.cleanup.exec W.store).2.host.disk.node? (archivePlace p c) =
            W.store.host.disk.node? (livePlace p c)) := by
  refine ⟨cleanup_report hI hk, fun b hb p hp => ?_⟩
  exact ⟨activeClaims_after_cleanup hI hk hb hp, fun c hc => places_after_cleanup hI hk hb hp hc⟩

/-- The cleanup of the pooled repository's fresh disk: the invariant holds there, the disk is
keyed, and the report counts the outcomes its containers' claims meet. -/
theorem pooled_cleanup_reconciled : Inv pooledWorld ∧ pooledWorld.store.host.disk.Keyed ∧
    (Action.cleanup.exec pooledWorld.store).1 =
      .ok (Cleanup.ofFates pooledWorld.store.repo.settings.archiveEnabled
        (pooledWorld.store.repo.containers.flatMap pooledWorld.store.fates)) :=
  have hk : pooledWorld.store.host.disk.Keyed := by decide +kernel
  ⟨pooledWorld_reachable.inv, hk, (cleanup_reconciles pooledWorld_reachable.inv hk).1⟩

end Sweep

/-! ## A file in a directory named like the archive directory -/

/-- One container rooted at `c` with one section, and archiving on. -/
def archivingSettings : Config.Resolved := { pooledSettings with archiveEnabled := true }

/-- A fresh disk where the root `c` holds its section directory `0` and a directory named like
the archive directory with the file `x`, holding `abc`. -/
def strayDisk : Disk :=
  ⟨Disk.fresh.nodes ++ [(["work", "c"], .dir), (["work", "c", "0"], .dir),
    (["work", "c", Archive.dirName], .dir), (["work", "c", Archive.dirName, "x"], .file 0)],
    #[⟨⟨#[97, 98, 99]⟩, 0⟩]⟩

/-- The repository of `archivingSettings` opened over `strayDisk`. -/
def strayWorld : World := (World.launch archivingSettings 8 (Probe.Script.probe {}) strayDisk 0).get (by decide +kernel)

theorem strayWorld_reachable : Reachable strayWorld := by
  refine .opened ⟨by decide, by decide, by decide⟩ (Disk.Sound.of_nodes (by decide +kernel))
    ⟨by simp [archivingSettings, pooledSettings], ?_⟩ (Option.some_get _).symm
  simp only [archivingSettings, pooledSettings, List.mem_singleton, forall_eq]
  intro p hp sec t j _ _
  rw [show place? "c" = some ["work", "c"] by decide] at hp
  cases hp
  -- no file is named like a claim: a claim's name holds a dash
  have hx : "x" ≠ formatId t j := by
    intro h
    have hdash : '-' ∈ (formatId t j).toList := by simp [formatId]
    rw [← h] at hdash
    simp at hdash
  constructor
  · rw [Disk.node?_of_ne_nil _ (by simp), Option.map_eq_none_iff, List.find?_eq_none]
    simp [strayDisk, Disk.fresh, scratchPlace, workPlace, hx]
  · -- nothing lies three names below the root
    rw [Disk.node?_of_ne_nil _ (by simp), Option.map_eq_none_iff, List.find?_eq_none]
    simp [strayDisk, Disk.fresh, scratchPlace, workPlace]

/-- The claim of the file `x` in the directory `c/archive`. -/
def strayClaim : Resource := ⟨"default", Archive.dirName, "x", false⟩

/-- With archiving on, a cleanup of the repository just opened over `strayDisk` scans the file
`c/archive/x`, whose claim nothing uses, counts it as neither archived, removed nor failed, and
leaves its claim listed. -/
theorem stray_archive_file_counted_nowhere :
    strayWorld.store.repo.tracker.inUse strayClaim = false ∧
      (Action.cleanup.exec strayWorld.store).1 =
        .ok { scanned := 1, archived := 0, removed := 0, failed := 0 } ∧
      ((Action.activeClaims "default").exec (Action.cleanup.exec strayWorld.store).2).1 =
        .ok [strayClaim] := by
  have hI := strayWorld_reachable.inv
  have hk : strayWorld.store.host.disk.Keyed := by decide +kernel
  obtain ⟨box, hcs⟩ := List.length_eq_one_iff.1
    (show strayWorld.store.repo.containers.length = 1 by decide +kernel)
  have hb : box ∈ strayWorld.store.repo.containers := by rw [hcs]; exact List.mem_singleton_self _
  have hname : box.name = "default" := by
    have h : strayWorld.store.repo.containers.map (·.name) = ["default"] := by decide +kernel
    rw [hcs] at h
    simpa using h
  have hp : place? box.root = some ["work", "c"] := by
    have h : strayWorld.store.repo.containers.map (·.root) = ["c"] := by decide +kernel
    rw [hcs] at h
    simp only [List.map_cons, List.map_nil, List.cons.injEq, and_true] at h
    rw [h]
    decide
  have hroot : strayWorld.store.host.disk.children ["work", "c"] =
      [("0", .dir), (Archive.dirName, .dir)] := by
    simp only [Disk.children]
    rw [List.mergeSort_of_pairwise (by decide +kernel)]
    decide +kernel
  have hlisted : box.liveClaims strayWorld.store.host.disk = [strayClaim] := by
    rw [Container.liveClaims_eq hp, hroot]
    simp only [List.flatMap_cons, List.flatMap_nil, Container.sectionClaims, hname]
    decide +kernel
  have hfate : strayWorld.store.reclaim ["work", "c"] strayClaim = .left := by decide +kernel
  refine ⟨by decide +kernel, ?_, ?_⟩
  · have ha : strayWorld.store.repo.settings.archiveEnabled = true := by decide +kernel
    rw [cleanup_report hI hk, hcs, ha]
    simp only [List.flatMap_cons, List.flatMap_nil, List.append_nil, Store.fates, hp, hlisted,
      List.map_cons, List.map_nil, hfate]
    rfl
  · rw [← hname, activeClaims_after_cleanup hI hk hb hp, hlisted]
    simp [hfate]

end ClaimStore
