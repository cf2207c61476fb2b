import ClaimStore.Proofs.Repo.Ranges
import ClaimStore.Proofs.Repo.Releasing
/-!
# Missing content

A claim whose bytes cannot be found has lost its content, and the store says so: the lookup
tries the live place and then the archive place, and only when both are not found does it give
up with `contentNotFound`. The other routes to the bytes (the size of a resource claim, whether
it is accessible, a read past the end of the file) come to the same answer.

What counts as not found is made precise by `Disk.Missing`: nothing lies at the place, and
every place above it is a directory or nothing. A file standing on the way is not a missing
directory to the disk, and the read that meets one fails as an I/O error
(`file_on_the_way_read_is_io`).
-/

set_option autoImplicit false

namespace ClaimStore.FileSystem.Disk

variable {d : Disk} {p : Place}

/-! ## Places where nothing can be found -/

/-- Nothing lies at a place, and no file stands on the way to it: every place above it is a
directory or missing. -/
def Absent (d : Disk) (p : Place) : Prop :=
  d.node? p = none ∧ ∀ k, k < p.length → d.node? (p.take k) = none ∨ d.node? (p.take k) = some .dir

instance (d : Disk) (p : Place) : Decidable (d.Absent p) :=
  inferInstanceAs (Decidable (_ ∧ _))

/-- Nothing can be found at a path: it names no place, or an absent one. -/
def Missing (d : Disk) (t : String) : Prop :=
  match place? t with
  | some p => d.Absent p
  | none => True

instance (d : Disk) (t : String) : Decidable (d.Missing t) := by
  unfold Missing
  split <;> infer_instance

/-! ## Looking up a missing place -/

theorem forM_ok_or {α : Type} (l : List α) (f : α → IoResult Unit) {e : IoError}
    (h : ∀ x ∈ l, f x = .ok () ∨ f x = .error e) : l.forM f = .ok () ∨ l.forM f = .error e := by
  induction l with
  | nil => exact .inl rfl
  | cons x l ih =>
    change (f x >>= fun _ => l.forM f) = .ok () ∨ (f x >>= fun _ => l.forM f) = .error e
    rcases h x List.mem_cons_self with hx | hx <;> rw [hx]
    · exact ih fun y hy => h y (List.mem_cons_of_mem _ hy)
    · exact .inr rfl

theorem reach_of_absent (h : d.Absent p) : d.reach p = .ok () ∨ d.reach p = .error .notFound := by
  unfold reach
  refine forM_ok_or _ _ fun k hk => ?_
  have hkl : k < p.length := by
    simp only [List.range_eq_range', List.drop_range', List.mem_range'_1] at hk
    omega
  rcases hn : d.node? (p.take k) with _ | _ | i
  · exact .inr rfl
  · exact .inl rfl
  · rcases h.2 k hkl with h' | h' <;> rw [hn] at h' <;> cases h'

theorem lookup_of_absent (h : d.Absent p) :
    d.lookup p = .ok none ∨ d.lookup p = .error .notFound := by
  unfold lookup
  rcases reach_of_absent h with hr | hr <;> rw [hr]
  · exact .inl (congrArg Except.ok h.1)
  · exact .inr rfl

theorem openRead_of_absent (h : d.Absent p) : d.openRead p = .error .notFound := by
  unfold openRead
  rcases lookup_of_absent h with hl | hl <;> rw [hl] <;> rfl

theorem stat_of_absent (h : d.Absent p) : d.stat p = .error .notFound := by
  unfold stat
  rcases lookup_of_absent h with hl | hl <;> rw [hl] <;> rfl

variable {t : String}

theorem Missing.absent (h : d.Missing t) (hp : place? t = some p) : d.Absent p := by
  simpa only [Missing, hp] using h

theorem nodeAt?_of_missing (h : d.Missing t) : d.nodeAt? t = none := by
  unfold nodeAt?
  cases hp : place? t with
  | none => rfl
  | some p => simp [stat_of_absent (h.absent hp), Except.toOption]

theorem openReadAt_of_missing (h : d.Missing t) :
    (do d.openRead (← placeOf t) : IoResult Node) = .error .notFound := by
  unfold placeOf
  cases hp : place? t with
  | none => rfl
  | some p => simp [openRead_of_absent (h.absent hp), bind, Except.bind, pure, Except.pure]

end ClaimStore.FileSystem.Disk

namespace ClaimStore.Action

open ClaimStore.Claim ClaimStore.FileSystem

variable {s : Store}

/-! ## Looking up a resource claim whose places are missing -/

section Missing

variable {r : Resource} {box : Container} (hbox : s.repo.container? r.container = some box)
  (hlive : s.host.disk.Missing (box.claimPath r)) (harch : s.host.disk.Missing (box.archivePath r))
include hbox hlive harch

theorem exec_openContent_of_missing : (openContent r).exec s =
    (.error (.contentNotFound r "no file in either the live or the archive location"), s) := by
  simp only [openContent, exec_bind, exec_container, hbox, exec_host]
  rw [Disk.openReadAt_of_missing hlive, Disk.openReadAt_of_missing harch]
  rfl

theorem exec_resolvePath_of_missing : (resolvePath r).exec s = (.ok none, s) := by
  simp [resolvePath, exec_bind, hbox, exec_map, Disk.existsAt, Disk.nodeAt?_of_missing hlive,
    Disk.nodeAt?_of_missing harch]

theorem exec_sizeOfResource_of_missing :
    (sizeOfResource r).exec s = (.error (.contentNotFound r "no live or archived file"), s) := by
  simp only [sizeOfResource, exec_bind, exec_resolvePath_of_missing hbox hlive harch]
  rfl

theorem exec_isAccessible_of_missing : (isAccessible r).exec s = (.ok false, s) := by
  simp only [isAccessible, exec_bind, exec_resolvePath_of_missing hbox hlive harch]
  rfl

end Missing

/-! ## The claim's reads fail as looking up its content does -/

variable {c : ClaimRef} {e : StoreError} {o l : Nat}

theorem exec_read_of_openContent (h : (openContent c.resource).exec s = (.error e, s)) :
    (read c).exec s = (.error e, s) := by
  simp only [read, exec_bind, h]

theorem exec_read_of_offset {n : Node} (h : (openContent c.resource).exec s = (.ok n, s))
    (hoff : c.offset > s.host.disk.sizeOf n) :
    ∃ m, (read c).exec s = (.error (.contentNotFound c.resource m), s) := by
  simp only [read, exec_bind, h, exec_host, hoff, ↓reduceIte, exec_throw]
  exact ⟨_, rfl⟩

theorem exec_exportAll_of_read (h : (read c).exec s = (.error e, s)) :
    (exportAll c).exec s = (.error e, s) := by
  simp only [exportAll, exec_bind, h]

theorem exec_exportToPath_of_read (h : (read c).exec s = (.error e, s)) (dest : String)
    (append : Bool) : (exportToPath c dest append).exec s = (.error e, s) := by
  simp only [exportToPath, exec_bind, h]

theorem exec_size_of_unknown (hu : s.host.cell c.cell < 0)
    (h : (sizeOfResource c.resource).exec s = (.error e, s)) : (size c).exec s = (.error e, s) := by
  simp only [size, exec_bind, exec_host, Int.not_le.2 hu, ↓reduceIte, h]

theorem exec_size_of_known (hk : 0 ≤ s.host.cell c.cell) :
    (size c).exec s = (.ok (s.host.cell c.cell).toNat, s) := by
  simp only [size, exec_bind, exec_host, hk, ↓reduceIte]
  rfl

theorem exec_export_ranges_of_openRange (h : (openRange c o l).exec s = (.error e, s))
    (dest : String) (append : Bool) :
    (exportRange c o l).exec s = (.error e, s) ∧
      (exportRangeToPath c dest append o l).exec s = (.error e, s) := by
  rw [exec_exportRange, exec_exportRangeToPath, h]
  exact ⟨rfl, rfl⟩

theorem exec_openRange_of_size (h : (size c).exec s = (.error e, s)) :
    (openRange c o l).exec s = (.error e, s) := by
  simp only [openRange, exec_bind, h]

theorem write_ok {copy : ClaimRef} {w : Writer} {s' : Store} (h : (write copy).exec s = (.ok w, s')) :
    s'.repo = s.repo ∧ s'.host.disk = s.host.disk := by
  by_cases hopen : s.host.cell copy.cell < 0 ∧ ∃ n, s.repo.streamOf? copy.resource = some n ∧
      (s.host.stream n).written = copy.offset
  · obtain ⟨hc, n, hn, he⟩ := hopen
    rw [exec_write_of_open s copy hc hn he] at h
    cases h
    exact ⟨rfl, rfl⟩
  · obtain ⟨e, he⟩ := exec_write_of_not_open s copy hopen
    rw [he] at h
    cases h

/-! ## Actions that never fail -/

/-- An action that never fails: in every store it answers a value. -/
def Succeeds {α : Type} (a : Action α) : Prop := ∀ s, ∃ x, (a.exec s).1 = .ok x

namespace Succeeds

variable {α β : Type}

protected theorem pure (x : α) : (pure x : Action α).Succeeds := fun _ => ⟨x, rfl⟩

protected theorem bind {x : Action α} {f : α → Action β} (hx : x.Succeeds)
    (hf : ∀ a, (f a).Succeeds) : (x >>= f).Succeeds := by
  intro s
  obtain ⟨a, ha⟩ := hx s
  rw [exec_bind]
  rcases hr : x.exec s with ⟨_ | a', s'⟩
  · rw [hr] at ha
    cases ha
  · exact hf a' s'

end Succeeds

theorem succeeds_repo : repo.Succeeds := fun s => ⟨s.repo, rfl⟩

theorem succeeds_host : host.Succeeds := fun s => ⟨s.host, rfl⟩

theorem succeeds_modifyRepo (f : Repo → Repo) : (modifyRepo f).Succeeds := fun _ => ⟨(), rfl⟩

theorem succeeds_modifyHost (f : Host → Host) : (modifyHost f).Succeeds := fun _ => ⟨(), rfl⟩

theorem succeeds_tracking {α : Type} (f : Tracker → α × Tracker) : (tracking f).Succeeds :=
  fun _ => ⟨_, rfl⟩

theorem succeeds_retireStream (c : Resource) (expected : Option Nat) :
    (retireStream c expected).Succeeds := by
  unfold retireStream
  refine Succeeds.bind succeeds_repo fun r => ?_
  dsimp only
  repeat' split
  all_goals exact .pure _

theorem succeeds_completeWrite (c : Resource) (n : Nat) (failed : Bool) :
    (completeWrite c n failed).Succeeds := by
  unfold completeWrite
  refine Succeeds.bind succeeds_repo fun r => Succeeds.bind succeeds_host fun h => ?_
  -- every way out retires the stream and freezes the claim, or offers it to the pool
  have hretire : ∀ result : IoResult Unit, (do
      retireStream c (some n)
      let _ ← tracking fun x => x.freeze c
      pure result : Action (IoResult Unit)).Succeeds := fun result =>
    Succeeds.bind (succeeds_retireStream _ _) fun _ =>
      Succeeds.bind (succeeds_tracking _) fun _ => .pure _
  split
  dsimp only
  split
  · split
    · split
      · exact Succeeds.bind (succeeds_modifyRepo _) fun _ => .pure _
      · exact hretire _
    · exact hretire _
  · exact hretire _

theorem succeeds_endWriter (w : Writer)
    (finish : Writer → Host → Option (IoResult Unit × Bool) × Writer) :
    (endWriter w finish).Succeeds := by
  unfold endWriter
  refine Succeeds.bind succeeds_host fun h => ?_
  split
  · exact .pure _
  · exact .bind (succeeds_completeWrite _ _ _) fun _ => .pure _

theorem succeeds_abortWriter (w : Writer) : (abortWriter w).Succeeds :=
  .bind (succeeds_endWriter _ _) fun _ => .pure _

theorem succeeds_attempt {α : Type} (a : Action α) : (attempt a).Succeeds := fun s => by
  rw [exec_attempt]
  exact ⟨_, rfl⟩

theorem succeeds_rollback (c : ClaimRef) : (rollback c).Succeeds := by
  unfold rollback
  refine Succeeds.bind succeeds_repo fun r => ?_
  have hrest : (do
      let _ ← tracking (·.decrement c.resource)
      let _ ← attempt (removeResource c.resource)
      pure () : Action Unit).Succeeds :=
    .bind (succeeds_tracking _) fun _ => .bind (succeeds_attempt _) fun _ => .pure _
  by_cases hw : (r.tracker.state c.resource).isWritable = true
  · simp only [hw, ↓reduceIte]
    exact .bind (succeeds_retireStream _ _) fun _ => .bind (succeeds_tracking _) fun _ => hrest
  · simp only [hw, Bool.false_eq_true, ↓reduceIte]
    exact hrest

theorem exec_clone_of_read {lt : Bool} {copy : ClaimRef} {s1 s2 : Store} {w : Writer}
    (hc : (create lt).exec s = (.ok (.claim copy), s1)) (hw : (write copy).exec s1 = (.ok w, s2))
    (hr : (read c).exec s2 = (.error e, s2)) : ∃ s', (clone c lt).exec s = (.error e, s') := by
  obtain ⟨u, hu⟩ := succeeds_abortWriter w s2
  rcases ha : (abortWriter w).exec s2 with ⟨_ | u, s3⟩
  · rw [ha] at hu
    cases hu
  obtain ⟨v, hv⟩ := succeeds_rollback copy s3
  rcases hb : (rollback copy).exec s3 with ⟨_ | v, s4⟩
  · rw [hb] at hv
    cases hv
  simp only [clone, exec_bind, hc, exec_attempt, copyClaim, hw, hr, ha, exec_throw, hb]
  exact ⟨_, rfl⟩

end ClaimStore.Action

namespace ClaimStore

open ClaimStore.Claim ClaimStore.FileSystem

/-- Missing content is reported as lost content, not as a failed file operation. A claim whose
offset passes what its file holds has lost its content. And when nothing can be found at
either the live or the archive place of a claim's resource claim (nothing lies there, and no
file stands on the way), then reading the claim, the size of its resource claim, its size
while its length is unknown, and its exports all fail with `contentNotFound`, changing
nothing, and it is not accessible. Its range exports fail the same way, or are refused as
invalid when the range passes its recorded length. A clone of it whose new claim was made and
whose copy's writer was taken fails with `contentNotFound` too, as long as the places are
still empty then. -/
theorem missing_content_is_not_found (s : Store) (c : ClaimRef) :
    (∀ n, (Action.openContent c.resource).exec s = (.ok n, s) → c.offset > s.host.disk.sizeOf n →
      ∃ m, (Action.read c).exec s = (.error (.contentNotFound c.resource m), s)) ∧
    ∀ box, s.repo.container? c.resource.container = some box →
      s.host.disk.Missing (box.claimPath c.resource) →
      s.host.disk.Missing (box.archivePath c.resource) →
      (∃ m, (Action.read c).exec s = (.error (.contentNotFound c.resource m), s)) ∧
      (∃ m, (Action.sizeOfResource c.resource).exec s =
        (.error (.contentNotFound c.resource m), s)) ∧
      (s.host.cell c.cell < 0 →
        ∃ m, (Action.size c).exec s = (.error (.contentNotFound c.resource m), s)) ∧
      (∃ m, (Action.exportAll c).exec s = (.error (.contentNotFound c.resource m), s)) ∧
      (∀ dest append, ∃ m, (Action.exportToPath c dest append).exec s =
        (.error (.contentNotFound c.resource m), s)) ∧
      (Action.isAccessible c.resource).exec s = (.ok false, s) ∧
      (∀ o l dest append, ∃ e,
        (Action.exportRange c o l).exec s = (.error e, s) ∧
        (Action.exportRangeToPath c dest append o l).exec s = (.error e, s) ∧
        ((∃ m, e = .contentNotFound c.resource m) ∨
          (∃ m, e = .invalidClaim m) ∧ 0 ≤ s.host.cell c.cell ∧
            (o + l ≥ 2 ^ 64 ∨ o + l > (s.host.cell c.cell).toNat))) ∧
      ∀ lt copy s1 w s2 box1, (Action.create lt).exec s = (.ok (.claim copy), s1) →
        s1.repo.container? c.resource.container = some box1 →
        s1.host.disk.Missing (box1.claimPath c.resource) →
        s1.host.disk.Missing (box1.archivePath c.resource) →
        (Action.write copy).exec s1 = (.ok w, s2) →
        ∃ m s', (Action.clone c lt).exec s = (.error (.contentNotFound c.resource m), s') := by
  refine ⟨fun n hn hoff => Action.exec_read_of_offset hn hoff, fun box hbox hlive harch => ?_⟩
  have hopen := Action.exec_openContent_of_missing hbox hlive harch
  have hread := Action.exec_read_of_openContent (c := c) hopen
  have hsizeOf := Action.exec_sizeOfResource_of_missing hbox hlive harch
  refine ⟨⟨_, hread⟩, ⟨_, hsizeOf⟩, fun hu => ⟨_, Action.exec_size_of_unknown hu hsizeOf⟩,
    ⟨_, Action.exec_exportAll_of_read hread⟩,
    fun dest append => ⟨_, Action.exec_exportToPath_of_read hread dest append⟩,
    Action.exec_isAccessible_of_missing hbox hlive harch, fun o l dest append => ?_,
    fun lt copy s1 w s2 box1 hc hbox1 hlive1 harch1 hw => ?_⟩
  · -- a known length is checked first; an unknown one is looked for and not found
    by_cases hk : 0 ≤ s.host.cell c.cell
    · have hsize := Action.exec_size_of_known hk
      by_cases hout : o + l ≥ 2 ^ 64 ∨ o + l > (s.host.cell c.cell).toNat
      · obtain ⟨msg, hmsg⟩ := Action.exec_openRange_of_out hsize hout
        obtain ⟨h1, h2⟩ := Action.exec_export_ranges_of_openRange hmsg dest append
        exact ⟨_, h1, h2, .inr ⟨⟨msg, rfl⟩, hk, hout⟩⟩
      · have hrange : (Action.openRange c o l).exec s = (.error (.contentNotFound c.resource
            "no file in either the live or the archive location"), s) := by
          rw [Action.exec_openRange_of_in hsize (by omega) (by omega), hread]
        obtain ⟨h1, h2⟩ := Action.exec_export_ranges_of_openRange hrange dest append
        exact ⟨_, h1, h2, .inl ⟨_, rfl⟩⟩
    · have hrange := Action.exec_openRange_of_size (o := o) (l := l)
        (Action.exec_size_of_unknown (Int.lt_of_not_ge hk) hsizeOf)
      obtain ⟨h1, h2⟩ := Action.exec_export_ranges_of_openRange hrange dest append
      exact ⟨_, h1, h2, .inl ⟨_, rfl⟩⟩
  · -- the copy's writer changes no file and no container
    obtain ⟨hrepo, hdisk⟩ := Action.write_ok hw
    have hbox2 : s2.repo.container? c.resource.container = some box1 := by rw [hrepo]; exact hbox1
    have hread2 := Action.exec_read_of_openContent (c := c)
      (Action.exec_openContent_of_missing hbox2 (hdisk ▸ hlive1) (hdisk ▸ harch1))
    obtain ⟨s', hs'⟩ := Action.exec_clone_of_read hc hw hread2
    exact ⟨_, s', hs'⟩

/-- A claim of `pooledWorld`'s first section that nothing was ever written for. -/
def unwrittenClaim : ClaimRef := ⟨⟨"default", "0", "x", false⟩, 0, 0⟩

/-- `pooledWorld`'s container `default`. -/
def pooledBox : Container :=
  (pooledWorld.store.repo.container? "default").get (by decide +kernel)

/-- Reading a claim nothing was written for reports lost content, and cloning it fails the
same way once its copy is made. -/
theorem unwritten_claim_not_found :
    (∃ m, (Action.read unwrittenClaim).exec pooledWorld.store =
      (.error (.contentNotFound unwrittenClaim.resource m), pooledWorld.store)) ∧
    ∃ m s', (Action.clone unwrittenClaim false).exec pooledWorld.store =
      (.error (.contentNotFound unwrittenClaim.resource m), s') := by
  have h := (missing_content_is_not_found pooledWorld.store unwrittenClaim).2 pooledBox
    (Option.some_get _).symm (by decide +kernel) (by decide +kernel)
  let s1 := ((Action.create false).exec pooledWorld.store).2
  let copy : ClaimRef := ⟨firstResource, 0, 0⟩
  let w : Writer := { claim := copy, stream := 0, written := 0, failed := false, finished := false }
  refine ⟨h.1, h.2.2.2.2.2.2.2 false copy s1 w ((Action.write copy).exec s1).2
    ((s1.repo.container? "default").get (by decide +kernel))
    (Prod.ext (by decide +kernel) rfl) (Option.some_get _).symm (by decide +kernel)
    (by decide +kernel) (Prod.ext (by decide +kernel) rfl)⟩

/-- A claim of `sectionFileStore`'s section, where a file stands in place of the directory. -/
def sectionFileClaim : ClaimRef := ⟨⟨"default", "0", "1-1", false⟩, 0, 0⟩

/-- A file on the way to a claim's places hides its content as well as absence does: no file
is found at either place, and its size is lost content, but reading it fails on opening the live
place, which is not a directory, and reports that as an I/O error. -/
theorem file_on_the_way_read_is_io :
    ((Action.resolvePath sectionFileClaim.resource).exec sectionFileStore).1 = .ok none ∧
    ((Action.sizeOfResource sectionFileClaim.resource).exec sectionFileStore).1 =
      .error (.contentNotFound sectionFileClaim.resource "no live or archived file") ∧
    ((Action.read sectionFileClaim).exec sectionFileStore).1 = .error (.io .notADirectory) := by
  decide +kernel

end ClaimStore
