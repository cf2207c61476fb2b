import ClaimStore.Proofs.Tracker.Queueing
import ClaimStore.Proofs.Disk.NewFiles
import ClaimStore.Proofs.Repo.Aborting
import ClaimStore.Proofs.Repo.Cleanup
/-!
# Claims left idle wait for destruction

A resource claim *lingers* when nothing uses it (no claimants, frozen) while its live place
still holds its file. Such a claim must be on its way out: `Store.Awaits K` says that every
claim of `K` that lingers waits in the tracker's destruction queue, unless the queue filled up.
With it goes that the containers lie apart.

Every operation but a round of destruction keeps `Awaits`. The tracker's side is
`Tracker.Enqueues`: a claim left idle is queued in the same call. The disk's side is that a new
file appears only at a *harmless* place, one that is not the live place of an idle claim of
`K`: a claim gets its file when it is created, writable with one claimant, and an archived file
lands below the archive directory (`Awaits.of_parts`). The operations are checked one by one, as
their parts are, through `Action.Preserves`.
-/

set_option autoImplicit false

namespace ClaimStore

open ClaimStore.Claim ClaimStore.FileSystem

/-! ## Containers of the same shape -/

/-- What a container's places are made of: its name, root and number of sections. -/
def Container.shape (c : Container) : String × String × Nat := (c.name, c.root, c.sections)

section Shape

variable {cs cs' : List Container}

theorem Container.exists_of_shape (h : cs'.map Container.shape = cs.map Container.shape)
    {c' : Container} (hc' : c' ∈ cs') : ∃ c ∈ cs, c.shape = c'.shape := by
  have hmem : c'.shape ∈ cs.map Container.shape := h ▸ List.mem_map_of_mem hc'
  exact List.mem_map.1 hmem

/-- Whether containers lie apart depends only on their shapes. -/
theorem Layout.of_shape (hL : Layout cs) (h : cs'.map Container.shape = cs.map Container.shape) :
    Layout cs' where
  names := by
    have hn : cs'.map (·.name) = cs.map (·.name) := by
      have := congrArg (List.map Prod.fst) h
      rw [List.map_map, List.map_map] at this
      exact this
    rw [hn]
    exact hL.names
  rooted c' hc' := by
    obtain ⟨c, hc, hs⟩ := Container.exists_of_shape h hc'
    rw [← show c.root = c'.root from congrArg (·.2.1) hs]
    exact hL.rooted c hc
  sections c' hc' := by
    obtain ⟨c, hc, hs⟩ := Container.exists_of_shape h hc'
    rw [← show c.sections = c'.sections from congrArg (·.2.2) hs]
    exact hL.sections c hc
  apart c' hc' e' he' hne p p' hp hp' := by
    obtain ⟨c, hc, hs⟩ := Container.exists_of_shape h hc'
    obtain ⟨e, he, hse⟩ := Container.exists_of_shape h he'
    rw [← show c.root = c'.root from congrArg (·.2.1) hs] at hp
    rw [← show e.root = e'.root from congrArg (·.2.1) hse] at hp'
    rw [← show c.name = c'.name from congrArg (·.1) hs,
      ← show e.name = e'.name from congrArg (·.1) hse] at hne
    exact hL.apart c hc e he hne p p' hp hp'

end Shape

namespace Repo

variable {r r' : Repo}

theorem container?_shape (h : r'.containers.map Container.shape = r.containers.map Container.shape)
    (name : String) :
    (r'.container? name).map Container.shape = (r.container? name).map Container.shape := by
  have hfind : ∀ cs : List Container, (cs.find? (·.name == name)).map Container.shape =
      (cs.map Container.shape).find? (·.1 == name) := fun cs => by
    rw [List.find?_map]
    rfl
  rw [container?, container?, hfind, hfind, h]

theorem livePlace?_of_shape
    (h : r'.containers.map Container.shape = r.containers.map Container.shape) (k : ClaimKey) :
    r'.livePlace? k = r.livePlace? k := by
  refine livePlace?_congr (fun name => ?_) k
  have := congrArg (Option.map (·.2.1)) (container?_shape h name)
  rw [Option.map_map, Option.map_map] at this
  exact this

/-- Replacing a container by one that `f` does not tell from it leaves the containers as `f`
sees them. -/
theorem map_setContainer {β : Type} (f : Container → β) (hnd : (r.containers.map (·.name)).Nodup)
    {c b : Container} (hb : r.container? c.name = some b) (hf : f c = f b) :
    (r.setContainer c).containers.map f = r.containers.map f := by
  obtain ⟨hbm, hbn⟩ := mem_of_container? hb
  simp only [setContainer, List.map_map]
  refine List.map_congr_left fun c' hc' => ?_
  simp only [Function.comp_apply]
  split
  · next he =>
    obtain rfl : c' = b := List.inj_on_of_nodup_map hnd hc' hbm (by simpa [hbn] using he)
    exact hf
  · rfl

theorem shape_setContainer (hnd : (r.containers.map (·.name)).Nodup) {c b : Container}
    (hb : r.container? c.name = some b) (hs : c.shape = b.shape) :
    (r.setContainer c).containers.map Container.shape = r.containers.map Container.shape :=
  map_setContainer Container.shape hnd hb hs

end Repo

/-! ## The invariant -/

namespace Store

variable {s s' : Store} {K : ClaimKey → Prop}

theorem idle_iff {k : ClaimKey} : s.Idle k ↔ s.repo.tracker.record k = .unknown := by
  unfold Idle
  constructor
  · rintro ⟨h0, hf⟩
    rcases hr : s.repo.tracker.record k with ⟨n, st⟩
    rw [hr] at h0 hf
    simp only at h0 hf
    rw [h0, hf]
    rfl
  · intro h
    rw [h]
    exact ⟨rfl, rfl⟩

/-- Nothing uses the claim, and its live place still holds its file. -/
def Lingers (s : Store) (k : ClaimKey) : Prop := s.Idle k ∧ ∃ i, s.live? k = some (.file i)

/-- A place where a new file does no harm: no idle claim of `K` lives there. -/
def Harmless (s : Store) (K : ClaimKey → Prop) (q : Place) : Prop :=
  ∀ k, K k → s.repo.livePlace? k = some q → ¬ s.Idle k

/-- Every claim of `K` left idle with its live file waits in the destruction queue, unless the
queue is full; and the containers lie apart. -/
structure Awaits (K : ClaimKey → Prop) (s : Store) : Prop where
  layout : Layout s.repo.containers
  owed : ∀ k, K k → s.Lingers k → s.repo.tracker.Queued k ∨ s.repo.tracker.Full

/-- A change that keeps the containers' shapes, only queues what it leaves idle, and adds files
only at harmless places keeps `Awaits`. -/
theorem Awaits.of_parts (h : s.Awaits K)
    (hshape : s'.repo.containers.map Container.shape = s.repo.containers.map Container.shape)
    (ht : s.repo.tracker.Enqueues s'.repo.tracker)
    (hd : s.host.disk.AddsFilesIn (s'.Harmless K) s'.host.disk) : s'.Awaits K where
  layout := h.layout.of_shape hshape
  owed k hk hl := by
    obtain ⟨hidle, i, hi⟩ := hl
    have hlive := Repo.livePlace?_of_shape hshape k
    cases hq : s.repo.livePlace? k with
    | none => simp [live?, hlive, hq] at hi
    | some q =>
      rw [live?, hlive, hq, Option.bind_some] at hi
      -- the file was there already: a new one at the live place of an idle claim does harm
      have hold : s.host.disk.node? q = some (.file i) :=
        (hd q i hi).resolve_right fun hharm => hharm k hk (hlive.trans hq) hidle
      rcases ht.idle (idle_iff.1 hidle) with h0 | hq' | hf
      · have hl : s.Lingers k := ⟨idle_iff.2 h0, i, by rw [live?, hq, Option.bind_some]; exact hold⟩
        exact (h.owed k hk hl).imp ht.queued ht.full
      · exact .inl hq'
      · exact .inr hf

theorem Awaits.of_nodes (h : s.Awaits K)
    (hshape : s'.repo.containers.map Container.shape = s.repo.containers.map Container.shape)
    (ht : s.repo.tracker.Enqueues s'.repo.tracker)
    (hd : ∀ q, s'.host.disk.node? q = s.host.disk.node? q) : s'.Awaits K :=
  h.of_parts hshape ht (.of_node hd)

theorem Awaits.tracker (h : s.Awaits K) {t : Tracker} (ht : s.repo.tracker.Enqueues t) :
    ({ s with repo := { s.repo with tracker := t } } : Store).Awaits K :=
  h.of_nodes rfl ht fun _ => rfl

theorem Awaits.harmless_of_archive (h : s.Awaits K)
    (hshape : s'.repo.containers.map Container.shape = s.repo.containers.map Container.shape)
    {box : Container} (hbox : box ∈ s.repo.containers) {p : Place} (hp : place? box.root = some p)
    (c : Resource) {q : Place} (hq : archivePlace p c <+: q) : s'.Harmless K q := by
  intro k _ hk _
  rw [Repo.livePlace?_of_shape hshape] at hk
  exact Repo.not_archive_prefix h.layout hbox hp _ _ hk hq

theorem Awaits.regate (h : s.Awaits K) (hr : s.Regated s') : s'.Awaits K := by
  obtain ⟨hh, g, hg⟩ := hr
  refine h.of_nodes ?_ ?_ fun q => by rw [hh]
  · rw [hg, List.map_map]
    rfl
  · rw [hg]
    exact .refl _

end Store

/-! ## Actions that keep the claims awaited -/

namespace Action

namespace Preserves

variable {α β γ : Type} {P : Store → Prop}

protected theorem throw (e : StoreError) : (throw e : Action α).Preserves P := of_snd fun _ => rfl

protected theorem ite {c : Prop} [Decidable c] {a b : Action α} (ha : a.Preserves P)
    (hb : b.Preserves P) : (if c then a else b).Preserves P := by
  split
  · exact ha
  · exact hb

protected theorem forIn {f : γ → β → Action (ForInStep β)} {l : List γ}
    (hf : ∀ x ∈ l, ∀ b, (f x b).Preserves P) (init : β) : (forIn l init f).Preserves P := by
  induction l generalizing init with
  | nil => exact Preserves.pure init
  | cons x l ih =>
    rw [List.forIn_cons]
    refine (hf x List.mem_cons_self init).bind fun r => ?_
    cases r with
    | done b => exact Preserves.pure b
    | yield b => exact ih (fun y hy => hf y (List.mem_cons_of_mem _ hy)) b

end Preserves

variable {K : ClaimKey → Prop} {α : Type}

theorem preserves_repo : repo.Preserves (Store.Awaits K) := Preserves.of_snd fun _ => rfl

theorem preserves_host : host.Preserves (Store.Awaits K) := Preserves.of_snd fun _ => rfl

theorem preserves_ofIo (r : IoResult α) : (ofIo r).Preserves (Store.Awaits K) :=
  Preserves.of_snd fun _ => by cases r <;> rfl

theorem preserves_container (name : String) : (container name).Preserves (Store.Awaits K) :=
  Preserves.of_snd fun s => by
    rw [exec_container]
    split <;> rfl

theorem preserves_tracking {f : Tracker → α × Tracker} (hf : ∀ t : Tracker, t.Enqueues (f t).2) :
    (tracking f).Preserves (Store.Awaits K) := fun s hs => by
  rw [exec_tracking]
  exact hs.of_nodes rfl (hf _) fun _ => rfl

theorem preserves_track {f : Tracker → Tracker} (hf : ∀ t : Tracker, t.Enqueues (f t)) :
    (track f).Preserves (Store.Awaits K) := fun s hs => by
  rw [exec_track]
  exact hs.of_nodes rfl (hf _) fun _ => rfl

theorem preserves_modifyRepo {f : Repo → Repo} (hc : ∀ r, (f r).containers = r.containers)
    (ht : ∀ r, (f r).tracker = r.tracker) : (modifyRepo f).Preserves (Store.Awaits K) :=
  fun s hs => by
    rw [exec_modifyRepo]
    refine hs.of_nodes (by dsimp only; rw [hc]) ?_ fun _ => rfl
    show s.repo.tracker.Enqueues (f s.repo).tracker
    rw [ht]
    exact .refl _

theorem preserves_modifyHost {f : Host → Host} (hf : ∀ h q, (f h).disk.node? q = h.disk.node? q) :
    (modifyHost f).Preserves (Store.Awaits K) := fun s hs => by
  rw [exec_modifyHost]
  exact hs.of_nodes rfl (.refl _) (hf s.host)

theorem preserves_retireStream (c : Resource) (expected : Option Nat) :
    (retireStream c expected).Preserves (Store.Awaits K) := by
  unfold retireStream
  refine preserves_repo.bind fun r => ?_
  refine Preserves.ite ((preserves_modifyRepo ?_ ?_).bind fun _ => ?_) ?_
  · exact fun _ => rfl
  · exact fun _ => rfl
  all_goals
    split
    · exact preserves_modifyHost fun _ _ => rfl
    · exact Preserves.pure ()

theorem preserves_newClaim (c : Resource) (offset : Nat) :
    (newClaim c offset).Preserves (Store.Awaits K) := fun s hs => by
  rw [exec_newClaim]
  exact hs.of_nodes rfl (.refl _) fun _ => rfl

theorem preserves_takePooled : ∀ fuel, (takePooled fuel).Preserves (Store.Awaits K)
  | 0 => Preserves.pure none
  | fuel + 1 => by
    rw [takePooled]
    refine preserves_repo.bind fun r => ?_
    split
    · exact Preserves.pure none
    · refine (preserves_modifyRepo ?_ ?_).bind fun _ => Preserves.ite ?_ ?_
      · exact fun _ => rfl
      · exact fun _ => rfl
      · exact (preserves_tracking fun t => t.enqueues_increment _ false).bind fun _ =>
          Preserves.pure _
      · exact (preserves_retireStream _ none).bind fun _ =>
          (preserves_tracking fun t => t.enqueues_freeze _).bind fun _ => preserves_takePooled fuel

theorem preserves_selectContainer (index : Nat) :
    (selectContainer index).Preserves (Store.Awaits K) := fun s hs =>
  hs.regate (selectContainer_regated index s hs.layout.names).1

end Action

/-- Opening a stream adds at most the file it opens. -/
theorem Host.addsFilesIn_openStream {h h' : Host} {path : String} {n : Nat} {p : Place}
    (ho : h.openStream path = .ok (n, h')) (hp : Disk.placeOf path = .ok p) :
    h.disk.AddsFilesIn (· = p) h'.disk := by
  unfold openStream at ho
  simp only [hp, bind, Except.bind] at ho
  obtain ⟨i, d, hadd, ho⟩ : ∃ i d, h.disk.AddsFilesIn (· = p) d ∧
      (pure (h.streams.size,
        { h with
          disk := d
          streams := h.streams.push ⟨path, i, (d.bytes i).size, false⟩ }) :
        IoResult (Nat × Host)) = .ok (n, h') := by
    split at ho
    · rename_i r hw
      exact ⟨r.1, r.2, FileSystem.Disk.addsFilesIn_openWrite hw, ho⟩
    · split at ho
      · rename_i dir _
        cases hm : h.disk.makeDirsAt dir with
        | error e => simp [hm] at ho
        | ok d0 =>
          cases hw : d0.openWrite p .append h.now with
          | error e => simp [hm, hw] at ho
          | ok r =>
            simp only [hm, hw] at ho
            exact ⟨r.1, r.2, (FileSystem.Disk.addsFilesIn_makeDirsAt hm _).trans
              (FileSystem.Disk.addsFilesIn_openWrite hw), ho⟩
      · cases hw : h.disk.openWrite p .append h.now with
        | error e => simp [pure, Except.pure, hw] at ho
        | ok r =>
          simp only [pure, Except.pure, hw] at ho
          exact ⟨r.1, r.2, FileSystem.Disk.addsFilesIn_openWrite hw, ho⟩
    · simp [throw, throwThe, MonadExceptOf.throw] at ho
  simp only [pure, Except.pure, Except.ok.injEq, Prod.mk.injEq] at ho
  exact ho.2 ▸ hadd

namespace Store

variable {s : Store} {K : ClaimKey → Prop}

/-- Creating a claim in one of the repository's containers: its file appears at its live place
only once it is writable with a claimant; a stream that cannot be opened leaves it frozen and
counted down, which queues it. -/
theorem Awaits.createIn (hs : s.Awaits K) {box : Container} (hbox : box ∈ s.repo.containers)
    (index : Nat) (lossTolerant : Bool) :
    ((Action.createIn box index lossTolerant).exec s).2.Awaits K := by
  unfold Action.createIn
  simp only [Action.exec_bind, Action.exec_host, Action.exec_tracking]
  split
  · simp only [Action.exec_bind, Action.exec_tracking, Action.exec_throw]
    exact ((hs.tracker (Tracker.enqueues_increment _ _ true)).tracker
      (Tracker.enqueues_freeze _ _)).tracker (Tracker.enqueues_decrement _ _)
  · next n h ho =>
    simp only [Action.exec_bind, Action.exec_modifyHost, Action.exec_modifyRepo,
      Action.exec_newClaim, Action.exec_pure]
    obtain ⟨p, hp⟩ := Option.isSome_iff_exists.1 (hs.layout.rooted box hbox)
    have hfind : s.repo.container? box.name = some box := hs.layout.find?_name hbox
    have hadd := Host.addsFilesIn_openStream ho (placeOf_of_place?
      (Container.claimPath_place hp ⟨Path.plain_toString _, Path.plain_formatId _ _⟩))
    refine hs.of_parts rfl (Tracker.enqueues_increment _ _ true) (hadd.mono fun q hq => ?_)
    subst hq
    -- the only claim living there is the new one, which has a claimant
    intro k _ hlive hidle
    have hk := Repo.key_of_livePlace? hs.layout hfind hp hlive (List.prefix_refl _)
    subst hk
    have h0 := hidle.1
    simp only [Tracker.record_increment] at h0
    exact Nat.succ_ne_zero _ h0

end Store

namespace Action

variable {K : ClaimKey → Prop}

/-- A creation takes a pooled claim, or numbers a new one in a container it selects. -/
theorem preserves_create (lossTolerant : Bool) : (create lossTolerant).Preserves (Store.Awaits K) := by
  unfold create
  refine preserves_repo.bind fun _ => ?_
  refine Preserves.ite ((Preserves.throw _).bind fun _ => ?_) ?_
  all_goals
    refine preserves_repo.bind fun r => (preserves_takePooled _).bind fun o => ?_
    split
    · exact (preserves_newClaim _ _).bind fun _ => Preserves.pure _
    · refine preserves_repo.bind fun r' => ?_
      split
      refine (preserves_modifyRepo ?_ ?_).bind fun _ => ?_
      · exact fun _ => rfl
      · exact fun _ => rfl
      split
      · -- the selected container is one of the repository's
        rename_i index _
        intro s hs
        have hsel := selectContainer_regated index s hs.layout.names
        rw [exec_bind]
        rcases hr : (selectContainer index).exec s with ⟨_ | (_ | box), s1⟩ <;> rw [hr] at hsel
        · exact hs.regate hsel.1
        · exact hs.regate hsel.1
        · exact (hs.regate hsel.1).createIn (hsel.2 box rfl) _ _
      · exact Preserves.throw _

end Action

theorem Writer.write_keeps_nodes (w : Writer) (h : Host) (bytes : ByteArray) (q : Place) :
    (w.write h bytes).2.2.disk.node? q = h.disk.node? q := by
  unfold Writer.write
  split
  · rfl
  · cases hwa : h.writeAll w.stream bytes with
    | error e => rfl
    | ok h' =>
      have hd : h'.disk = h.disk.append (h.stream w.stream).inode bytes h.now := by
        unfold Host.writeAll at hwa
        dsimp only at hwa
        split at hwa
        · cases hwa
        · cases hwa
          rfl
      simp [Host.setCell, hd]

namespace Action

variable {K : ClaimKey → Prop}

theorem preserves_write (c : ClaimRef) : (write c).Preserves (Store.Awaits K) := fun s hs => by
  by_cases h : s.host.cell c.cell < 0 ∧ ∃ n, s.repo.streamOf? c.resource = some n ∧
      (s.host.stream n).written = c.offset
  · obtain ⟨hc, n, hn, he⟩ := h
    rw [exec_write_of_open s c hc hn he]
    exact hs.of_nodes rfl (.refl _) fun _ => rfl
  · obtain ⟨e, he⟩ := exec_write_of_not_open s c h
    rw [he]
    exact hs

theorem preserves_writeWith (w : Writer) (bytes : ByteArray) :
    (writeWith w bytes).Preserves (Store.Awaits K) := fun s hs => by
  rw [exec_writeWith]
  exact hs.of_nodes rfl (.refl _) (Writer.write_keeps_nodes w s.host bytes)

theorem preserves_completeWrite (c : Resource) (stream : Nat) (failed : Bool) :
    (completeWrite c stream failed).Preserves (Store.Awaits K) := by
  unfold completeWrite
  refine preserves_repo.bind fun r => preserves_host.bind fun h => ?_
  have hretire : ∀ result : IoResult Unit,
      (retireStream c (some stream) >>= fun _ => tracking (·.freeze c) >>= fun _ =>
        (pure result : Action (IoResult Unit))).Preserves (Store.Awaits K) := fun _ =>
    (preserves_retireStream _ _).bind fun _ =>
      (preserves_tracking fun t => t.enqueues_freeze c).bind fun _ => Preserves.pure _
  split
  refine Preserves.ite (Preserves.ite ?_ (hretire _)) (hretire _)
  split
  · refine (preserves_modifyRepo ?_ ?_).bind fun _ => Preserves.pure _
    · exact fun _ => rfl
    · exact fun _ => rfl
  · exact hretire _

theorem preserves_endWriter (w : Writer)
    (finish : Writer → Host → Option (IoResult Unit × Bool) × Writer) :
    (endWriter w finish).Preserves (Store.Awaits K) := by
  unfold endWriter
  refine preserves_host.bind fun h => ?_
  split
  · exact Preserves.pure _
  · exact (preserves_completeWrite _ _ _).bind fun _ => Preserves.pure _

theorem preserves_abortWriter (w : Writer) : (abortWriter w).Preserves (Store.Awaits K) :=
  (preserves_endWriter _ _).bind fun _ => Preserves.pure ()

theorem preserves_closeWriter (w : Writer) : (closeWriter w).Preserves (Store.Awaits K) :=
  (preserves_endWriter _ _).bind fun r => preserves_ofIo r

theorem preserves_fill (w : Writer) (bytes : ByteArray) : (fill w bytes).Preserves (Store.Awaits K) := by
  unfold fill writeAll
  refine Preserves.bind ?_ fun x => ?_
  · exact Preserves.ite (Preserves.pure _) ((preserves_writeWith _ _).bind fun _ => Preserves.pure _)
  · split
    · exact (preserves_abortWriter _).bind fun _ => Preserves.throw _
    · exact (preserves_closeWriter _).bind fun _ => Preserves.pure _

theorem preserves_importBytes (c : ClaimRef) (bytes : ByteArray) :
    (importBytes c bytes).Preserves (Store.Awaits K) :=
  (preserves_write c).bind fun w => preserves_fill w bytes

theorem preserves_importPath (c : ClaimRef) (source : String) :
    (importPath c source).Preserves (Store.Awaits K) := by
  unfold importPath importNode
  refine preserves_host.bind fun h => (preserves_ofIo _).bind fun n =>
    (preserves_write c).bind fun w => ?_
  split
  · exact (preserves_abortWriter _).bind fun _ => Preserves.throw _
  · exact preserves_host.bind fun _ => preserves_fill _ _

theorem preserves_pump (r : Reading) (w : Writer) (moved : Nat) :
    ∀ fuel, (pump r w moved fuel).Preserves (Store.Awaits K)
  | 0 => Preserves.pure _
  | fuel + 1 => by
    rw [pump]
    refine preserves_host.bind fun h => ?_
    split
    · exact Preserves.pure _
    · refine Preserves.ite (Preserves.pure _) ((preserves_writeWith _ _).bind fun x => ?_)
      split
      · exact Preserves.pure _
      · exact preserves_pump _ _ _ fuel

theorem preserves_copyClaim (original copy : ClaimRef) :
    (copyClaim original copy).Preserves (Store.Awaits K) := by
  unfold copyClaim
  refine (preserves_write copy).bind fun w =>
    (Preserves.attempt (Preserves.of_snd fun s => read_snd s original)).bind fun o => ?_
  split
  · exact (preserves_abortWriter _).bind fun _ => Preserves.throw _
  · refine preserves_host.bind fun h => Preserves.ite (Preserves.pure _)
      ((preserves_pump _ _ _ _).bind fun x => ?_)
    split
    · exact (preserves_abortWriter _).bind fun _ => Preserves.throw _
    · exact (preserves_closeWriter _).bind fun _ => Preserves.pure _

theorem disk_retired (o : Option Nat) (h : Host) : (o.elim h h.close).disk = h.disk := by
  cases o <;> rfl

theorem removeResource_frame (c : Resource) (s : Store) :
    ((removeResource c).exec s).2.repo.containers = s.repo.containers ∧
      ∀ S, s.host.disk.AddsFilesIn S ((removeResource c).exec s).2.host.disk := by
  unfold removeResource
  simp only [exec_bind, exec_container]
  cases hbox : s.repo.container? c.container with
  | none => exact ⟨rfl, fun S => .refl S _⟩
  | some box =>
    simp only [exec_tracking]
    cases hb : (s.repo.tracker.beginDestruction c .removed).1
    · simpa [hb] using fun S => FileSystem.Disk.AddsFilesIn.refl S s.host.disk
    simp only [Bool.not_true, Bool.false_eq_true, ↓reduceIte, exec_bind, exec_retireStream,
      exec_host]
    split
    · next d hd =>
      rw [disk_retired] at hd
      simpa [exec_bind, exec_map] using fun S => FileSystem.Disk.addsFilesIn_removeFileAt hd S
    all_goals simpa [exec_bind, exec_map, disk_retired] using
      fun S => FileSystem.Disk.AddsFilesIn.refl S s.host.disk

theorem preserves_removeResource (c : Resource) :
    (removeResource c).Preserves (Store.Awaits K) := fun s hs => by
  obtain ⟨hc, hd⟩ := removeResource_frame c s
  exact hs.of_parts (by rw [hc]) (destroys_removeResource c s).enqueues (hd _)

/-- Archiving a plain claim keeps the containers' shapes, and the disk gains files only at or
below the claim's archive place. -/
theorem archive_frame (c : Resource) (hc : c.Plain) (s : Store) (hL : Layout s.repo.containers) :
    ((archive c).exec s).2.repo.containers.map Container.shape =
        s.repo.containers.map Container.shape ∧
      s.host.disk.AddsFilesIn (fun q => ∃ box p, s.repo.container? c.container = some box ∧
        place? box.root = some p ∧ archivePlace p c <+: q) ((archive c).exec s).2.host.disk := by
  unfold archive
  simp only [exec_bind, exec_repo]
  cases ha : s.repo.settings.archiveEnabled
  · simpa [ha] using FileSystem.Disk.AddsFilesIn.refl _ s.host.disk
  simp only [Bool.not_true, Bool.false_eq_true, ↓reduceIte, exec_bind, exec_container]
  cases hbox : s.repo.container? c.container with
  | none => simpa using FileSystem.Disk.AddsFilesIn.refl _ s.host.disk
  | some box =>
    obtain ⟨hmem, hname⟩ := Repo.mem_of_container? hbox
    obtain ⟨p, hp⟩ := Option.isSome_iff_exists.1 (hL.rooted box hmem)
    simp only [exec_tracking]
    cases hb : (s.repo.tracker.beginDestruction c .archived).1
    · simpa [hb] using FileSystem.Disk.AddsFilesIn.refl _ s.host.disk
    simp only [Bool.not_true, Bool.false_eq_true, ↓reduceIte, exec_bind, exec_retireStream,
      exec_host]
    split
    · next moved d hd =>
      rw [disk_retired] at hd
      have hadd : s.host.disk.AddsFilesIn (archivePlace p c <+: ·) d := by
        rcases archiveFile_cases hp hc hd with rfl | hmv | ⟨d1, hm, hmv⟩
        · exact .refl _ _
        · exact FileSystem.Disk.addsFilesIn_rename hmv
        · exact (FileSystem.Disk.addsFilesIn_makeDirs hm _).trans (FileSystem.Disk.addsFilesIn_rename hmv)
      cases moved
      · simp only [exec_bind, exec_modifyHost, exec_track, Bool.false_eq_true, ↓reduceIte,
          exec_pure]
        exact ⟨by trivial, hadd.mono fun q hq => ⟨box, p, rfl, hp, hq⟩⟩
      · have hfind : s.repo.containers.find? (·.name == c.container) = some box := hbox
        simp only [exec_bind, exec_modifyHost, exec_track, ↓reduceIte, exec_container,
          Repo.container?, hfind, setContainer, exec_pure, exec_modifyRepo]
        have hbox' : s.repo.container? box.name = some box := hname ▸ hbox
        exact ⟨Repo.shape_setContainer hL.names hbox' rfl,
          hadd.mono fun q hq => ⟨box, p, rfl, hp, hq⟩⟩
    · simpa [exec_bind, disk_retired] using FileSystem.Disk.AddsFilesIn.refl _ s.host.disk

theorem preserves_archive {c : Resource} (hc : c.Plain) : (archive c).Preserves (Store.Awaits K) :=
  fun s hs => by
    obtain ⟨hshape, hadd⟩ := archive_frame c hc s hs.layout
    refine hs.of_parts hshape (destroys_archive c s).enqueues (hadd.mono ?_)
    rintro q ⟨box, p, hbox, hp, hq⟩
    exact hs.harmless_of_archive hshape (Repo.mem_of_container? hbox).1 hp c hq

theorem preserves_rollback (c : ClaimRef) : (rollback c).Preserves (Store.Awaits K) := by
  unfold rollback
  have hrest : (tracking (·.decrement c.resource) >>= fun _ =>
      attempt (removeResource c.resource) >>= fun _ => (pure () : Action Unit)).Preserves
        (Store.Awaits K) :=
    (preserves_tracking fun t => t.enqueues_decrement _).bind fun _ =>
      (preserves_removeResource _).attempt.bind fun _ => Preserves.pure ()
  refine preserves_repo.bind fun r => Preserves.ite ?_ hrest
  exact (preserves_retireStream _ none).bind fun _ =>
    (preserves_tracking fun t => t.enqueues_freeze _).bind fun _ => hrest

theorem preserves_clone (original : ClaimRef) (lossTolerant : Bool) :
    (clone original lossTolerant).Preserves (Store.Awaits K) := by
  unfold clone
  refine (preserves_create lossTolerant).bind fun cr => ?_
  split
  · exact Preserves.pure _
  · refine (preserves_copyClaim _ _).attempt.bind fun o => ?_
    split
    · exact Preserves.pure _
    · exact Preserves.pure _
    · exact (preserves_rollback _).bind fun _ => Preserves.throw _

/-! ## Actions that lean on the invariant of runs -/

section WithInv

variable (W : World) {α : Type}

/-- An action that keeps the invariant of runs and `Awaits` keeps the two together. -/
theorem Preserves.with_inv {a : Action α} (hk : a.Keeps) (ha : a.Preserves (Store.Awaits K)) :
    a.Preserves (fun s => Inv { W with store := s } ∧ s.Awaits K) := fun s h =>
  ⟨hk { W with store := s } h.1, ha s h.2⟩

/-- A cleanup archives or removes the claims its listing finds, which are plain on a sound
disk. -/
theorem preserves_cleanup :
    cleanup.Preserves (fun s => Inv { W with store := s } ∧ s.Awaits K) := by
  unfold cleanup
  refine (preserves_repo.with_inv W keeps_repo).bind fun rp =>
    (preserves_repo.with_inv W keeps_repo).bind fun rp' =>
      (Preserves.forIn (fun name _ report => ?_) _).bind fun _ => Preserves.pure _
  refine ((preserves_container name).with_inv W (keeps_container name)).bind fun box => ?_
  intro s h
  rw [exec_bind, exec_host]
  refine Preserves.bind (P := fun s => Inv { W with store := s } ∧ s.Awaits K)
    (Preserves.forIn (fun c hc report => ?_) _) (fun _ => Preserves.pure _) s h
  have hp := plain_of_liveClaims h.1.sound hc
  refine (preserves_repo.with_inv W keeps_repo).bind fun rt => ?_
  split
  · exact Preserves.pure _
  · refine (Preserves.attempt ?_).bind fun o => ?_
    · split
      · exact (preserves_archive hp).with_inv W (spares_archive hp).keeps
      · exact (preserves_removeResource _).with_inv W (spares_removeResource hp).keeps
    · split <;> exact Preserves.pure _

/-- An expiration pass deletes files only, and keeps its container's shape. -/
theorem preserves_expireWith (name : String) :
    (expireWith name Container.expire).Preserves
      (fun s => Inv { W with store := s } ∧ s.Awaits K) := fun s h => by
  refine ⟨keeps_expireWith name { W with store := s } h.1, ?_⟩
  unfold expireWith
  rw [exec_bind, exec_container]
  cases hbox : s.repo.container? name with
  | none => exact h.2
  | some box =>
    obtain ⟨-, hname⟩ := Repo.mem_of_container? hbox
    simp only [exec_bind, exec_repo, exec_host]
    have hdel := Container.expire_deletes box s.host.disk s.repo.probe s.host.now
      (s.repo.settings.retentionNanos / 1000000)
    generalize Container.expire box s.host.disk s.repo.probe s.host.now
      (s.repo.settings.retentionNanos / 1000000) = x at hdel ⊢
    obtain ⟨o, box', d'⟩ := x
    dsimp only at hdel
    simp only [exec_modifyHost, setContainer, exec_modifyRepo, exec_ofIo]
    have hbox' : s.repo.container? box'.name = some box := by
      rw [hdel.name, hname]
      exact hbox
    have hshape : box'.shape = box.shape := Prod.ext hdel.name (Prod.ext hdel.root hdel.sections)
    exact h.2.of_parts (Repo.shape_setContainer h.2.layout.names hbox' hshape) (.refl _)
      ((hdel.unlinked h.1.sound).addsFilesIn _)

theorem preserves_expireNow (name : String) :
    (expireNow name).Preserves (fun s => Inv { W with store := s } ∧ s.Awaits K) := fun s h => by
  refine ⟨keeps_expireNow name { W with store := s } h.1, ?_⟩
  have h1 := preserves_expireWith W name s h
  unfold expireNow
  rw [exec_bind, exec_attempt]
  generalize (expireWith name Container.expire).exec s = x at h1
  obtain ⟨o, s1⟩ := x
  obtain ⟨-, h1⟩ := h1
  dsimp only at h1 ⊢
  rw [exec_bind, exec_repo]
  dsimp only
  cases hbox : s1.repo.container? name with
  | none => cases o <;> exact h1
  | some box =>
    obtain ⟨-, hname⟩ := Repo.mem_of_container? hbox
    simp only [exec_bind, exec_repo, exec_host, setContainer, exec_modifyRepo]
    -- the gate takes a fresh reading: the container keeps its shape
    have h2 : ({ s1 with repo := s1.repo.setContainer ({ box with
        gate := box.gate.signalReady (s1.repo.usable s1.host.disk box) s1.host.now }) } :
          Store).Awaits K :=
      h1.of_nodes (Repo.shape_setContainer (b := box) h1.layout.names (by rw [hname]; exact hbox) rfl)
        (.refl _) fun _ => rfl
    cases o <;> exact h2

end WithInv

end Action

end ClaimStore
