import ClaimStore.Proofs.Repo.Awaiting
import ClaimStore.Proofs.Repo.Reordering
import ClaimStore.Proofs.Repo.InUse
import ClaimStore.Proofs.Repo.Registering
/-!
# A clean round of destruction takes every lingering claim's file

A round of destruction drains the tracker's queue and destroys each claim it held, then the
claims in the containers' bins. Destroying a claim along its course never makes another claim
linger: the tracker forgets that claim alone, and its step on the disk adds files only at its
archive place, where no claim lives (`Inv.lingers_destroy`). When the step ends well it leaves
no file at the claim's live place, unless the claim lies in a section named like the archive
directory, which archiving leaves alone (`reclaimStep_clears`).

So a round that reports no failure, started while every lingering claim waits in the queue,
leaves no lingering claim behind (`Inv.drained`). Along a run in which every round starts with
room in the queue and reports no failure (`CleanRun`), every claim the repository opened a file
for that lingers waits in the queue (`CleanRun.awaited`), and every round takes all their files.

Main statement: `lingering_claims_drained`.
-/

set_option autoImplicit false

namespace ClaimStore

open ClaimStore.Claim ClaimStore.FileSystem ClaimStore.FileSystem.Disk

/-! ## One claim's step on the disk -/

section Step

variable {d d' : Disk} {box : Container} {p : Place} {r : Resource}

theorem removeStep_clears (hs : d.Sound) {L : Place} {b : Bool} (h : removeStep L d = (.ok b, d'))
    (i : Nat) : d'.node? L ≠ some (.file i) := by
  unfold removeStep at h
  cases hrm : d.removeFile L with
  | ok d1 =>
    rw [hrm, settle, Prod.mk.injEq] at h
    obtain ⟨-, rfl⟩ := h
    obtain ⟨-, -, -, hq⟩ := removeFile_eq_ok hs hrm
    simp [hq]
  | error e =>
    -- only a missing file lets the step end well, and then nothing was there to remove
    cases e <;> simp only [hrm, settle, Prod.mk.injEq, reduceCtorEq, false_and] at h
    obtain ⟨-, rfl⟩ := h
    intro hf
    rw [removeFile_of_file hs hf] at hrm
    cases hrm

theorem archiveStep_clears (hs : d.Sound) {P : Place} {a n : String} {b : Bool}
    (h : archiveStep (P ++ [n]) (P ++ [a]) (P ++ [a, n]) d = (.ok b, d')) (i : Nat) :
    d'.node? (P ++ [n]) ≠ some (.file i) := by
  have hmoved : ∀ {e e' : Disk}, e.rename (P ++ [n]) (P ++ [a, n]) = .ok e' →
      e'.node? (P ++ [n]) ≠ some (.file i) := fun hmv => by
    obtain ⟨-, -, ⟨heq, -⟩ | ⟨-, -, -, hnode⟩⟩ := rename_eq_ok hmv
    · simp at heq
    · have hnot : ¬ P ++ [a, n] <+: P ++ [n] := fun hpre => by simpa using hpre.length_le
      rw [hnode _ (by simp), if_neg hnot, if_pos (List.prefix_refl _)]
      simp
  unfold archiveStep at h
  split at h
  · next e hmv =>
    rw [Prod.mk.injEq] at h
    exact h.2 ▸ hmoved hmv
  · split at h
    · split at h
      · next e2 h2 =>
        rw [Prod.mk.injEq] at h
        cases hm : d.makeDirs (P ++ [a]) with
        | error err => simp [hm, bind, Except.bind] at h2
        | ok d1 =>
          simp only [hm, bind, Except.bind] at h2
          exact h.2 ▸ hmoved h2
      · simp at h
    · -- nothing stands at the entry's place
      next hex =>
      rw [Prod.mk.injEq] at h
      obtain ⟨-, rfl⟩ := h
      intro hf
      exact hex (stat_isSome.2 ⟨hs.reach hf, by simp [hf]⟩)
  · simp at h

/-- A claim's step on the disk that ends well leaves no file at its live place, unless it
archives a claim of a section named like the archive directory. -/
theorem reclaimStep_clears (hs : d.Sound) (hp : place? box.root = some p) (hr : r.Plain)
    {archiving b : Bool} (hsec : archiving = true → r.sectionName ≠ Archive.dirName)
    (h : reclaimStep archiving (box.claimPath r) d = (.ok b, d')) (i : Nat) :
    d'.node? (livePlace p r) ≠ some (.file i) := by
  cases archiving
  · rw [reclaimStep_remove hp hr] at h
    exact removeStep_clears hs h i
  · rw [reclaimStep_archive hp hr (hsec rfl)] at h
    have hL : (p ++ [r.sectionName]) ++ [r.id] = livePlace p r := by simp [livePlace]
    exact hL ▸ archiveStep_clears hs h i

/-- A claim's step on the disk adds files only at or below its archive place. -/
theorem reclaimStep_adds (hp : place? box.root = some p) (hr : r.Plain) (archiving : Bool)
    (d : Disk) : d.AddsFilesIn (archivePlace p r <+: ·) (reclaimStep archiving (box.claimPath r) d).2 := by
  cases archiving
  · rw [reclaimStep_remove hp hr]
    unfold removeStep
    cases hrm : d.removeFile (livePlace p r) with
    | ok d1 => exact addsFilesIn_removeFile hrm _
    | error e => cases e <;> exact .refl _ _
  · unfold reclaimStep
    simp only [if_true]
    split
    · next moved d1 had =>
      rcases archiveFile_cases hp hr had with rfl | hmv | ⟨d2, hm, hmv⟩
      · exact .refl _ _
      · exact addsFilesIn_rename hmv
      · exact (addsFilesIn_makeDirs hm _).trans (addsFilesIn_rename hmv)
    · exact .refl _ _

end Step

/-! ## One claim destroyed -/

theorem Tracker.record_erase (t : Tracker) (k k' : ClaimKey) :
    (t.erase k').record k = if k = k' then .unknown else t.record k := by
  by_cases h : k = k' <;> simp [Tracker.record, Tracker.find?_erase, h, Tracker.Record.unknown]

theorem Repo.shape_countArchived (r : Repo) (n : String) :
    (r.countArchived n).containers.map Container.shape = r.containers.map Container.shape := by
  simp only [countArchived, List.map_map]
  refine List.map_congr_left fun c _ => ?_
  simp only [Function.comp_apply]
  split <;> rfl

namespace Store

/-- A claim destroyed after its destruction began: the repository's containers keep their
shapes, the tracker forgets the claim alone, and the disk is what its step left. -/
theorem shape_reclaimed (s : Store) (c : Resource) (archiving : Bool)
    (x : Except IoError Bool × Disk) :
    (s.reclaimed c archiving x).repo.containers.map Container.shape =
      s.repo.containers.map Container.shape := by
  unfold reclaimed
  split
  · exact Repo.shape_countArchived _ _
  · rfl

/-- The failures a destruction counts only grow. -/
theorem failed_le_destroy (s : Store) (report : Destruction) (c : Resource) :
    report.failed ≤ (s.destroy report c).1.failed := by
  unfold destroy destroyed
  split
  · exact Nat.le_succ _
  · exact Nat.le_refl _
  · unfold Destruction.tally
    split <;> (try split) <;> simp

theorem failed_le_destroyAll (s : Store) (report : Destruction) (l : List Resource) :
    report.failed ≤ (s.destroyAll report l).1.failed := by
  induction l generalizing s report with
  | nil => exact Nat.le_refl _
  | cons c l ih => exact Nat.le_trans (s.failed_le_destroy report c) (ih _ _)

end Store

namespace Inv

variable {W : World}

/-- Destroying a claim without a failure leaves lingering only claims that lingered before, and
of the destroyed claim's key only when it lies in a section named like the archive directory. -/
theorem lingers_destroy (hI : Inv W) {c : Resource} (hc : c.Plain) (report : Destruction)
    (hf : (W.store.destroy report c).1.failed = report.failed) {k : ClaimKey}
    (hk : (W.store.destroy report c).2.Lingers k) :
    W.store.Lingers k ∧ (k = c.key → k.2.1 = Archive.dirName) := by
  obtain ⟨hidle, i, hi⟩ := hk
  unfold Store.destroy at hf hidle hi
  cases hcourse : W.store.repo.course c with
  | unknown =>
    rw [hcourse] at hf
    simp [Store.destroyed] at hf
  | refused =>
    simp only [hcourse, Store.destroyed] at hidle hi
    refine ⟨⟨hidle, i, hi⟩, fun hkc => ?_⟩
    -- an idle claim's destruction begins, so it is never refused
    have hb := (Tracker.beginDestruction_fst W.store.repo.tracker c
      (if W.store.repo.settings.archiveEnabled then .archived else .removed)).2
      ⟨by rw [← hkc]; exact hidle.1, by rw [← hkc]; exact hidle.2, by split <;> simp⟩
    unfold Repo.course at hcourse
    split at hcourse <;> simp [hb] at hcourse
  | begun path =>
    simp only [hcourse, Store.destroyed] at hf hidle hi
    obtain ⟨box, hmem, hname, ⟨p, hp⟩, rfl⟩ := hI.course_begun hcourse
    have hbox : W.store.repo.container? c.container = some box := hname ▸ hI.layout.find?_name hmem
    generalize hx : reclaimStep W.store.repo.settings.archiveEnabled (box.claimPath c)
      W.store.host.disk = x at hf hidle hi
    obtain ⟨o, d'⟩ := x
    cases o with
    | error e => simp [Destruction.tally] at hf
    | ok b =>
    have hshape := W.store.shape_reclaimed c W.store.repo.settings.archiveEnabled (.ok b, d')
    have hlive := Repo.livePlace?_of_shape hshape k
    simp only [Store.Idle, Store.live?] at hidle hi
    rw [hlive] at hi
    simp only [Store.reclaimed] at hi
    cases hq : W.store.repo.livePlace? k with
    | none => simp [hq] at hi
    | some q =>
    rw [hq, Option.bind_some] at hi
    have hadd := reclaimStep_adds hp hc W.store.repo.settings.archiveEnabled W.store.host.disk
    rw [hx] at hadd
    have hold : W.store.host.disk.node? q = some (.file i) :=
      (hadd q i hi).resolve_right (Repo.not_archive_prefix hI.layout hmem hp _ _ hq)
    have hbegan := (Repo.course_eq_begun hcourse)
    refine ⟨⟨?_, i, by rw [Store.live?, hq, Option.bind_some]; exact hold⟩, fun hkc => ?_⟩
    · by_cases hkc : k = c.key
      · subst hkc
        obtain ⟨-, -, -, hb⟩ := hbegan
        obtain ⟨h0, hfz, -⟩ := (Tracker.beginDestruction_fst _ _ _).1 hb
        exact ⟨h0, hfz⟩
      · rwa [Store.tracker_reclaimed, Tracker.record_erase, if_neg hkc] at hidle
    · -- the step ended well, so the file at the claim's live place went
      subst hkc
      have hq' : q = livePlace p c := by
        obtain ⟨b', p', hb', hp', rfl⟩ := Repo.livePlace?_eq_some.1 hq
        change W.store.repo.container? c.container = some b' at hb'
        rw [hbox] at hb'
        cases hb'
        rw [hp] at hp'
        cases hp'
        rfl
      subst hq'
      by_contra hne
      exact reclaimStep_clears hI.sound hp hc (fun _ => hne) hx i hi

end Inv

/-! ## A round of destruction -/

namespace Store

/-- From `s` to `s'` no claim begins to linger, outside sections named like the archive
directory. -/
def Sheds (s s' : Store) : Prop :=
  ∀ k : ClaimKey, k.2.1 ≠ Archive.dirName → s'.Lingers k → s.Lingers k

theorem Sheds.refl (s : Store) : s.Sheds s := fun _ _ h => h

theorem Sheds.trans {s s' s'' : Store} (h : s.Sheds s') (h' : s'.Sheds s'') : s.Sheds s'' :=
  fun k hk hl => h k hk (h' k hk hl)

/-- A change that keeps the containers' shapes, the tracker's records and the disk makes no
claim linger. -/
theorem sheds_of_frame {s s' : Store}
    (hshape : s'.repo.containers.map Container.shape = s.repo.containers.map Container.shape)
    (ht : ∀ k, s'.repo.tracker.record k = s.repo.tracker.record k)
    (hd : s'.host.disk = s.host.disk) : s.Sheds s' := by
  rintro k - ⟨hidle, i, hi⟩
  refine ⟨?_, i, ?_⟩
  · unfold Idle at hidle ⊢
    rwa [ht k] at hidle
  · rwa [live?, Repo.livePlace?_of_shape hshape, hd] at hi

end Store

namespace Inv

variable {W : World}

/-- Destroying claims one after another without a failure lets no claim begin to linger, and of
the destroyed claims leaves lingering only those in sections named like the archive directory. -/
theorem lingers_destroyAll {l : List Resource} (hl : ∀ c ∈ l, c.Plain) :
    ∀ {W : World} (report : Destruction), Inv W →
      (W.store.destroyAll report l).1.failed = report.failed → ∀ {k : ClaimKey},
      k.2.1 ≠ Archive.dirName → (W.store.destroyAll report l).2.Lingers k →
        W.store.Lingers k ∧ ∀ c ∈ l, c.key ≠ k := by
  induction l with
  | nil =>
    intro W report _ _ k _ hk
    exact ⟨hk, by simp⟩
  | cons c l ih =>
    intro W report hI hf k hsec hk
    rw [Store.destroyAll] at hf hk
    have hc := hl c List.mem_cons_self
    -- failures only grow, so the first claim's destruction counted none
    have h1 : (W.store.destroy report c).1.failed = report.failed := by
      have := W.store.failed_le_destroy report c
      have := (W.store.destroy report c).2.failed_le_destroyAll (W.store.destroy report c).1 l
      omega
    obtain ⟨hk1, hl1⟩ := ih (fun c' hc' => hl c' (List.mem_cons_of_mem _ hc'))
      (W := { W with store := (W.store.destroy report c).2 }) _ (hI.destroy hc report)
      (hf.trans h1.symm) hsec hk
    obtain ⟨hk0, hkc⟩ := hI.lingers_destroy hc report h1 hk1
    refine ⟨hk0, ?_⟩
    rintro c' hc' rfl
    rcases List.mem_cons.1 hc' with rfl | hc'
    · exact hsec (hkc rfl)
    · exact hl1 c' hc' rfl

/-- Emptying a container's bin counts failures only upward, and when it counts none lets no
claim begin to linger. -/
theorem sheds_archiveOrDestroy (hI : Inv W) (report : Destruction) (name : String)
    {rep : Destruction} {s' : Store}
    (h : (Action.archiveOrDestroy report name).exec W.store = (.ok rep, s')) :
    report.failed ≤ rep.failed ∧ (rep.failed = report.failed → W.store.Sheds s') := by
  unfold Action.archiveOrDestroy at h
  rw [Action.exec_bind, Action.exec_container] at h
  cases hbox : W.store.repo.container? name with
  | none => simp [hbox] at h
  | some box =>
    obtain ⟨hmem, hname⟩ := Repo.mem_of_container? hbox
    rw [hbox] at h
    dsimp only at h
    have hbin : ∀ x ∈ (box.reclaimable.drain box.reclaimable.size).1, x.Plain :=
      fun x hx => hI.binned box hmem x (List.mem_of_mem_take hx)
    have hI' := hI.setContainer hmem
      { box with reclaimable := (box.reclaimable.drain box.reclaimable.size).2 } rfl rfl rfl
      (fun x hx => hI.binned box hmem x (List.mem_of_mem_drop hx)) (hI.filed box hmem)
    rw [Action.setContainer, Action.exec_bind, Action.exec_modifyRepo] at h
    dsimp only at h
    rw [Action.exec_foldlM_destroy hbin report hI'] at h
    simp only [Prod.mk.injEq, Except.ok.injEq] at h
    obtain ⟨rfl, rfl⟩ := h
    refine ⟨Store.failed_le_destroyAll _ _ _, fun hf => ?_⟩
    have hframe : W.store.Sheds { W.store with repo := (W.store.repo.setContainer
        { box with reclaimable := (box.reclaimable.drain box.reclaimable.size).2 }) } :=
      Store.sheds_of_frame (Repo.shape_setContainer (b := box) hI.layout.names
        (by rw [← hname] at hbox; exact hbox) rfl) (fun _ => rfl) rfl
    exact hframe.trans fun k hk hl => (lingers_destroyAll hbin report hI' hf hk hl).1

/-- Emptying the bins one after another counts failures only upward, and when it counts none
lets no claim begin to linger. -/
theorem sheds_foldlM_archiveOrDestroy (names : List String) :
    ∀ {W : World} (report : Destruction) {rep : Destruction} {s' : Store}, Inv W →
      (names.foldlM Action.archiveOrDestroy report).exec W.store = (.ok rep, s') →
      report.failed ≤ rep.failed ∧ (rep.failed = report.failed → W.store.Sheds s') := by
  induction names with
  | nil =>
    intro W report rep s' _ h
    simp only [List.foldlM_nil, Action.exec_pure, Prod.mk.injEq, Except.ok.injEq] at h
    obtain ⟨rfl, rfl⟩ := h
    exact ⟨Nat.le_refl _, fun _ => .refl _⟩
  | cons name names ih =>
    intro W report rep s' hI h
    rw [List.foldlM_cons, Action.exec_bind] at h
    rcases h1 : (Action.archiveOrDestroy report name).exec W.store with ⟨_ | rep1, s1⟩ <;>
      rw [h1] at h
    · simp at h
    have hI1 : Inv { W with store := s1 } := by
      have := Action.keeps_archiveOrDestroy report name W hI
      rwa [h1] at this
    obtain ⟨hle1, hs1⟩ := hI.sheds_archiveOrDestroy report name h1
    obtain ⟨hle2, hs2⟩ := ih (W := { W with store := s1 }) rep1 hI1 h
    exact ⟨Nat.le_trans hle1 hle2, fun hf => (hs1 (by omega)).trans (hs2 (by omega))⟩

/-- A round of destruction that reports no failure, started with room in the queue while every
lingering claim of `K` waits in it, leaves no claim of `K` lingering outside sections named like
the archive directory. -/
theorem drained (hI : Inv W) {K : ClaimKey → Prop} (hA : W.store.Awaits K)
    (hroom : ¬ W.store.repo.tracker.Full) {rep : Destruction} {s' : Store}
    (h : Action.runDestruction.exec W.store = (.ok rep, s')) (h0 : rep.failed = 0)
    {k : ClaimKey} (hk : K k) (hsec : k.2.1 ≠ Archive.dirName) : ¬ s'.Lingers k := by
  intro hl
  unfold Action.runDestruction at h
  rw [Action.exec_bind, Action.exec_repo] at h
  dsimp only [Tracker.drainDestructable] at h
  rw [Action.exec_bind, Action.exec_modifyRepo] at h
  dsimp only at h
  -- the round takes the whole queue
  have hall : (W.store.repo.tracker.queue.drain W.store.repo.tracker.pending).1 =
      W.store.repo.tracker.queue.items := List.take_length
  have hq : ∀ c ∈ (W.store.repo.tracker.queue.drain W.store.repo.tracker.pending).1, c.Plain :=
    fun c hc => hI.queued c (List.mem_of_mem_take hc)
  have hI1 := hI.tracker { W.store.repo.tracker with
      queue := (W.store.repo.tracker.queue.drain W.store.repo.tracker.pending).2 } (fun _ => rfl)
    fun c hc => hI.queued c (List.mem_of_mem_drop hc)
  have hI2 := Action.Keeps.foldlM (fun b x hx => Action.keeps_destroy b (hq x hx)) {} _ hI1
  rw [Action.exec_foldlM_destroy hq {} hI1] at hI2
  rw [Action.exec_bind, Action.exec_foldlM_destroy hq {} hI1] at h
  dsimp only at h
  rw [Action.exec_bind, Action.exec_repo] at h
  dsimp only at h
  obtain ⟨hle, hshed⟩ := sheds_foldlM_archiveOrDestroy _ _ hI2 h
  obtain ⟨hl1, hnot⟩ := lingers_destroyAll hq {} hI1 (by simp at hle ⊢; omega) hsec
    (hshed (by simp at hle ⊢; omega) k hsec hl)
  have hl0 := Store.sheds_of_frame (s := W.store) rfl (fun _ => rfl) rfl k hsec hl1
  obtain ⟨c, hc, hck⟩ := (hA.owed k hk hl0).resolve_right hroom
  exact hnot c (hall ▸ hc) hck

end Inv

/-! ## Runs whose rounds drain -/

theorem Action.Preserves.of_exec {α : Type} {P : Store → Prop} {a : Action α}
    (ha : a.Preserves P) {s s' : Store} (hs : P s) {o : Except StoreError α}
    (h : a.exec s = (o, s')) : P s' := by
  have h' := ha s hs
  rwa [h] at h'

/-- A round of destruction may start with room in the queue, and it reports no failure. -/
def Store.Drains (s : Store) : Prop :=
  ¬ s.repo.tracker.Full ∧ ∃ rep, (Action.runDestruction.exec s).1 = .ok rep ∧ rep.failed = 0

/-- Every claim the repository opened a file for that lingers waits in the destruction queue,
unless the queue filled up. -/
def World.Awaited (W : World) : Prop := W.store.Awaits (· ∈ W.files.map (·.1))

/-- A step notes the files of the claims its store has streams for, or leaves the caller's
records as they were. -/
theorem World.step_files (W : World) (st : Step) :
    (W.step st).files = W.files ∨ (W.step st).files = World.note W.files (W.step st).store := by
  cases st <;> simp only [World.step] <;> (repeat' split) <;> simp [World.after]

namespace Inv

variable {W : World}

theorem sec_of_files (hI : Inv W) {k : ClaimKey} (hk : k ∈ W.files.map (·.1)) :
    k.2.1 ≠ Archive.dirName := by
  obtain ⟨⟨k, i⟩, hmem, rfl⟩ := List.mem_map.1 hk
  exact (hI.numbered k i hmem).1.sec.2

/-- A claim with a stream is writable, so not frozen, so not idle. -/
theorem not_idle_of_stream (hI : Inv W) {k : ClaimKey} {n : Nat}
    (h : (k, n) ∈ W.store.repo.streams) : ¬ W.store.Idle k := fun ⟨_, hfrozen⟩ => by
  have hw := hI.writable k
  rw [(Repo.registered_iff _ _).2 ⟨n, h⟩, hfrozen] at hw
  cases hw

/-- A claim a step notes has a stream after it, so it is in use. -/
theorem step_noted {st : Step} (hI' : Inv (W.step st)) {k : ClaimKey}
    (hk : k ∈ (W.step st).files.map (·.1)) :
    k ∈ W.files.map (·.1) ∨ ¬ (W.step st).store.Idle k := by
  rcases World.step_files W st with h | h <;> rw [h] at hk
  · exact .inl hk
  obtain ⟨⟨k, i⟩, hmem, rfl⟩ := List.mem_map.1 hk
  rcases World.mem_note.1 hmem with hold | ⟨n, hn, -, -⟩
  · exact .inl (List.mem_map_of_mem hold)
  · exact .inr (hI'.not_idle_of_stream hn)

/-- A round of destruction that drains leaves no claim of `K` lingering. -/
theorem step_destroy_drained (hI : Inv W) {K : ClaimKey → Prop} (hA : W.store.Awaits K)
    (hK : ∀ k, K k → k.2.1 ≠ Archive.dirName) (hd : W.store.Drains) {k : ClaimKey} (hk : K k) :
    ¬ (W.step .destroy).store.Lingers k := by
  obtain ⟨hroom, rep, hrep, h0⟩ := hd
  rcases hx : Action.runDestruction.exec W.store with ⟨o, s'⟩
  rw [hx] at hrep
  subst hrep
  have hs : (W.step .destroy).store = s' := by simp [World.step, World.after, hx]
  rw [hs]
  exact hI.drained hA hroom hx h0 hk (hK k hk)

/-- Every step keeps the claims of `K` awaited; a round of destruction does when it drains, for
claims outside sections named like the archive directory. -/
theorem step_awaits (hI : Inv W) {K : ClaimKey → Prop} (hA : W.store.Awaits K)
    (hK : ∀ k, K k → k.2.1 ≠ Archive.dirName) (st : Step) (hplain : st.PlainClaims)
    (hd : st = .destroy → W.store.Drains) : (W.step st).store.Awaits K := by
  cases st with
  | create lossTolerant =>
    simp only [World.step]
    split <;> next h => exact (Action.preserves_create lossTolerant).of_exec hA h
  | write k =>
    simp only [World.step]
    split
    · split <;> next h => exact (Action.preserves_write _).of_exec hA h
    · exact hA
  | send k bytes =>
    simp only [World.step]
    split
    · split <;> next h => exact (Action.preserves_writeWith _ _).of_exec hA h
    · exact hA
  | flush k =>
    simp only [World.step]
    split <;> exact hA
  | close k =>
    simp only [World.step]
    split
    · exact Action.preserves_endWriter _ _ W.store hA
    · exact hA
  | abort k =>
    simp only [World.step]
    split
    · exact Action.preserves_endWriter _ _ W.store hA
    · exact hA
  | clone original lossTolerant =>
    simp only [World.step]
    split
    · exact hA
    · next h => exact (Action.preserves_clone original lossTolerant).of_exec hA h
  | importBytes k bytes =>
    simp only [World.step]
    split
    · exact Action.preserves_importBytes _ _ W.store hA
    · exact hA
  | importPath k source =>
    simp only [World.step]
    split
    · exact Action.preserves_importPath _ _ W.store hA
    · exact hA
  | increment r => exact Action.preserves_tracking (fun t => t.enqueues_increment r false) W.store hA
  | decrement r => exact Action.preserves_tracking (fun t => t.enqueues_decrement r) W.store hA
  | remove r => exact Action.preserves_removeResource r W.store hA
  | archive r => exact Action.preserves_archive hplain W.store hA
  | destroy =>
    exact ⟨hI.step_destroy.layout, fun k hk hl => absurd hl (hI.step_destroy_drained hA hK (hd rfl) hk)⟩
  | cleanup => exact (Action.preserves_cleanup W W.store ⟨hI, hA⟩).2
  | expire name => exact (Action.preserves_expireNow W name W.store ⟨hI, hA⟩).2
  | wait ms =>
    simp only [World.step, World.after]
    rw [Action.exec_pass_of_idle _ _ hI.running.2]
    exact hA.of_nodes rfl (.refl _) fun _ => rfl

/-- Every step keeps the claims awaited, a round of destruction when it drains. -/
theorem step_awaited (hI : Inv W) (hA : W.Awaited) (st : Step) (hplain : st.PlainClaims)
    (hids : st.numbers → W.store.repo.ids.value + 1 < 2 ^ 64)
    (hd : st = .destroy → W.store.Drains) : (W.step st).Awaited := by
  have hI' := hI.step st hplain hids
  have hstep := hI.step_awaits hA (fun _ => hI.sec_of_files) st hplain hd
  refine ⟨hI'.layout, fun k hk hl => ?_⟩
  rcases step_noted (W := W) hI' hk with hold | hbusy
  · exact hstep.owed k hold hl
  · exact absurd hl.1 hbusy

end Inv

/-- A run from an opened repository in which every round of destruction starts with room in the
queue and reports no failure. -/
inductive CleanRun : World → Prop
  | opened {s : Config.Resolved} {d : Disk} {cap : Nat} {probe : Probe} {now : Nat}
      {W : World} : s.Valid → d.Sound → Roots s.containers d now →
      World.launch s cap probe d now = some W → CleanRun W
  | step {W : World} (st : Step) : CleanRun W → st.PlainClaims →
      (st.numbers → W.store.repo.ids.value + 1 < 2 ^ 64) → (st = .destroy → W.store.Drains) →
      CleanRun (W.step st)

/-- Along a clean run the invariant holds and the claims are awaited. -/
theorem CleanRun.awaited {W : World} (h : CleanRun W) : Inv W ∧ W.Awaited := by
  induction h with
  | opened hs hd hroots hW =>
    have hI := Inv.launch hs hd hroots hW
    -- nothing is noted yet, so nothing is owed
    refine ⟨hI, hI.layout, fun k hk => ?_⟩
    rw [World.launch_files hW] at hk
    simp at hk
  | step st _ hplain hids hdrain ih =>
    exact ⟨ih.1.step st hplain hids, ih.1.step_awaited ih.2 st hplain hids hdrain⟩

theorem releasedWorld_cleanRun : CleanRun releasedWorld := by
  have hplain : firstResource.Plain := ⟨by decide, by decide⟩
  have h0 : CleanRun pooledWorld :=
    .opened ⟨by decide, by decide, by decide⟩ (Disk.Sound.of_nodes (by decide +kernel))
      (Roots.fresh (fun p hp => by
        rw [show place? "c" = some ["work", "c"] by decide] at hp
        cases hp
        simp) 0)
      (Option.some_get _).symm
  exact .step (.decrement firstResource) (.step (.abort 0) (.step (.write 0) (.step (.create false)
    h0 trivial (fun _ => by decide +kernel) nofun) trivial nofun nofun) trivial nofun nofun)
    hplain nofun nofun

theorem releasedWorld_drains : releasedWorld.store.Drains := by
  refine ⟨by unfold Tracker.Full Tracker.Total.Full; decide +kernel, ⟨0, 1, 0, 0⟩, ?_, rfl⟩
  decide +kernel

end ClaimStore
