import ClaimStore.Proofs.Repo.Runs
/-!
# Live files

The live file of a resource claim is what its live place holds: `<root>/<section>/<id>` in the
container of its name. This module says which actions may take it away. Most keep every live
file, on any store (`Action.Retains`): they only append to files, make new files and
directories at empty places, and change the repository's bookkeeping, never a container's root.
The actions that destroy claims spare them (`Action.Spares`): a live file goes away only from a
claim left without claimants and frozen (`Store.Idle`), and a claim left so stays so.
-/

set_option autoImplicit false

namespace ClaimStore

open ClaimStore.Claim ClaimStore.FileSystem

/-- The live place of a resource claim: its section and id below the root of the container of
its name. -/
def Repo.livePlace? (r : Repo) (k : ClaimKey) : Option Place := do
  let c ← r.container? k.1
  let p ← place? c.root
  pure (p ++ [k.2.1, k.2.2])

theorem Repo.livePlace?_congr {r r' : Repo}
    (h : ∀ name, (r'.container? name).map (·.root) = (r.container? name).map (·.root))
    (k : ClaimKey) : r'.livePlace? k = r.livePlace? k := by
  have hk := h k.1
  simp only [livePlace?, Option.bind_eq_bind]
  cases hc : r.container? k.1 with
  | none =>
    rw [hc, Option.map_none, Option.map_eq_none_iff] at hk
    rw [hk]
  | some c =>
    obtain ⟨c', hc', hroot⟩ := Option.map_eq_some_iff.1 (hk.trans (by rw [hc]; rfl))
    rw [hc', Option.bind_some, Option.bind_some, hroot]

namespace Store

/-- What the live place of a resource claim holds. -/
def live? (s : Store) (k : ClaimKey) : Option Node := (s.repo.livePlace? k).bind s.host.disk.node?

/-- A resource claim nothing uses: no claimants, and frozen. -/
def Idle (s : Store) (k : ClaimKey) : Prop :=
  (s.repo.tracker.record k).count = 0 ∧ (s.repo.tracker.record k).state = .frozen

/-- From `s` to `s'` every live file stays. -/
def KeepsLive (s s' : Store) : Prop :=
  ∀ k i, s.live? k = some (.file i) → s'.live? k = some (.file i)

/-- From `s` to `s'` a live file goes away only from a claim left idle. -/
def Frees (s s' : Store) : Prop :=
  ∀ k i, s.live? k = some (.file i) → s'.live? k ≠ some (.file i) → s'.Idle k

/-- From `s` to `s'` a live file goes away only from a claim left idle, and idle claims stay
idle: what destroying claims does. -/
structure Spares (s s' : Store) : Prop where
  idle : ∀ k, s.Idle k → s'.Idle k
  frees : Frees s s'

theorem KeepsLive.refl (s : Store) : KeepsLive s s := fun _ _ h => h

theorem KeepsLive.trans {s s' s'' : Store} (h : KeepsLive s s') (h' : KeepsLive s' s'') :
    KeepsLive s s'' := fun k i hk => h' k i (h k i hk)

theorem KeepsLive.frees {s s' : Store} (h : KeepsLive s s') : Frees s s' :=
  fun k i hk hgone => absurd (h k i hk) hgone

theorem KeepsLive.then_frees {s s' s'' : Store} (h : KeepsLive s s') (h' : Frees s' s'') :
    Frees s s'' := fun k i hk hgone => h' k i (h k i hk) hgone

theorem Spares.refl (s : Store) : Spares s s := ⟨fun _ h => h, (KeepsLive.refl s).frees⟩

theorem Spares.trans {s s' s'' : Store} (h : Spares s s') (h' : Spares s' s'') : Spares s s'' where
  idle k hk := h'.idle k (h.idle k hk)
  frees k i hk hgone := by
    by_cases hmid : s'.live? k = some (.file i)
    · exact h'.frees k i hmid hgone
    · exact h'.idle k (h.frees k i hk hmid)

end Store

/-! ## Disks that keep their files -/

namespace FileSystem.Disk


variable {d d' d'' : Disk} {p : Place}

/-- Every file stays at its place. -/
def KeepsFiles (d d' : Disk) : Prop := ∀ q i, d.node? q = some (.file i) → d'.node? q = some (.file i)

theorem KeepsFiles.refl (d : Disk) : KeepsFiles d d := fun _ _ h => h

theorem KeepsFiles.trans (h : KeepsFiles d d') (h' : KeepsFiles d' d'') : KeepsFiles d d'' :=
  fun q i hq => h' q i (h q i hq)

theorem KeepsFiles.of_node (h : ∀ q, d'.node? q = d.node? q) : KeepsFiles d d' :=
  fun q _ hq => (h q).trans hq

theorem keepsFiles_set (hp : d.node? p = none) (n : Node) : KeepsFiles d (d.set p n) := by
  intro q i hq
  rw [node?_set, if_neg]
  · exact hq
  · rintro ⟨rfl, -⟩
    rw [hp] at hq
    cases hq

theorem keepsFiles_makeDirs (h : d.makeDirs p = .ok d') : KeepsFiles d d' := by
  unfold makeDirs at h
  cases hp : d.node? p with
  | some n =>
    rcases n with _ | i <;> simp [hp, throw, throwThe, MonadExceptOf.throw, pure,
      Except.pure] at h
    exact h ▸ .refl d
  | none =>
    simp only [hp] at h
    split at h
    · cases h
    simp only [pure, Except.pure, Except.ok.injEq] at h
    subst h
    intro q i hq
    rw [node?_foldl_set_dir, if_neg]
    · exact hq
    · rintro ⟨-, n, hn, rfl⟩
      rw [List.mem_filter, hq] at hn
      simp at hn

theorem keepsFiles_openWrite {how : Opening} {now i : Nat} (h : d.openWrite p how now = .ok (i, d')) :
    KeepsFiles d d' := by
  unfold openWrite at h
  cases hl : d.lookup p with
  | error e => simp [hl, bind, Except.bind] at h
  | ok o =>
    obtain ⟨-, ho⟩ := lookup_eq_ok.1 hl
    rw [hl] at h
    rcases o with _ | _ | j
    · -- a new file at a place that held nothing
      simp only [bind, Except.bind, allocate, pure, Except.pure, Except.ok.injEq,
        Prod.mk.injEq] at h
      obtain ⟨-, rfl⟩ := h
      exact (KeepsFiles.of_node fun q => rfl).trans (keepsFiles_set ho.symm _)
    · simp [bind, Except.bind, throw, throwThe, MonadExceptOf.throw] at h
    · cases how <;> simp [bind, Except.bind, throw, throwThe, MonadExceptOf.throw, pure,
        Except.pure] at h
      · exact h.2 ▸ .refl d
      · exact h.2 ▸ KeepsFiles.of_node fun q => node?_store d j _ now q

theorem keepsFiles_makeDirsAt {t : String} (h : d.makeDirsAt t = .ok d') : KeepsFiles d d' := by
  unfold makeDirsAt at h
  split at h
  · cases h
    exact .refl d
  · cases hp : placeOf t with
    | error e => simp [hp, bind, Except.bind] at h
    | ok p => simp only [hp, bind, Except.bind] at h; exact keepsFiles_makeDirs h

end FileSystem.Disk

namespace Host

/-- Opening a stream makes the file and the directories above it when missing, and keeps every
file. -/
theorem keepsFiles_openStream {h h' : Host} {path : String} {n : Nat}
    (ho : h.openStream path = .ok (n, h')) : h.disk.KeepsFiles h'.disk := by
  unfold openStream at ho
  cases hp : Disk.placeOf path with
  | error e => simp [hp, bind, Except.bind] at ho
  | ok p =>
    simp only [hp, bind, Except.bind] at ho
    obtain ⟨i, d, hkeep, ho⟩ : ∃ i d, h.disk.KeepsFiles d ∧
        (pure (h.streams.size,
          { h with
            disk := d
            streams := h.streams.push ⟨path, i, (d.bytes i).size, false⟩ }) :
          IoResult (Nat × Host)) = .ok (n, h') := by
      split at ho
      · rename_i r hw
        exact ⟨r.1, r.2, FileSystem.Disk.keepsFiles_openWrite hw, ho⟩
      · split at ho
        · rename_i dir _
          cases hm : h.disk.makeDirsAt dir with
          | error e => simp [hm] at ho
          | ok d0 =>
            cases hw : d0.openWrite p .append h.now with
            | error e => simp [hm, hw] at ho
            | ok r =>
              simp only [hm, hw] at ho
              exact ⟨r.1, r.2, (FileSystem.Disk.keepsFiles_makeDirsAt hm).trans
                (FileSystem.Disk.keepsFiles_openWrite hw), ho⟩
        · cases hw : h.disk.openWrite p .append h.now with
          | error e => simp [pure, Except.pure, hw] at ho
          | ok r =>
            simp only [pure, Except.pure, hw] at ho
            exact ⟨r.1, r.2, FileSystem.Disk.keepsFiles_openWrite hw, ho⟩
      · simp [throw, throwThe, MonadExceptOf.throw] at ho
    simp only [pure, Except.pure, Except.ok.injEq, Prod.mk.injEq] at ho
    exact ho.2 ▸ hkeep

end Host

theorem Writer.keepsFiles_write (w : Writer) (h : Host) (bytes : ByteArray) :
    h.disk.KeepsFiles (w.write h bytes).2.2.disk := by
  unfold Writer.write
  split
  · exact .refl _
  · cases hwa : h.writeAll w.stream bytes with
    | error e => exact .refl _
    | ok h' =>
      have hd : h'.disk = h.disk.append (h.stream w.stream).inode bytes h.now := by
        unfold Host.writeAll at hwa
        dsimp only at hwa
        split at hwa
        · cases hwa
        · cases hwa
          rfl
      exact .of_node fun q => by simp [Host.setCell, hd]

/-! ## Stores that keep roots and files -/

namespace Repo

/-- Replacing a container by one with its root, where the first container of its name has that
root, leaves every name's root as it was (names may repeat). -/
theorem root_setContainer {r : Repo} {c b : Container} (hb : r.container? c.name = some b)
    (hroot : c.root = b.root) (name : String) :
    ((r.setContainer c).container? name).map (·.root) = (r.container? name).map (·.root) := by
  have hmap : (r.setContainer c).container? name =
      (r.container? name).map fun c' => if c'.name == c.name then c else c' := by
    simp only [container?, setContainer, List.find?_map]
    congr 2
    funext c'
    by_cases h : c'.name = c.name <;> simp [h]
  rw [hmap, Option.map_map]
  cases hn : r.container? name with
  | none => rfl
  | some e =>
    simp only [Option.map_some, Function.comp_apply, Option.some.injEq]
    split
    · -- the first container of the name is `b`
      rename_i he
      have hname : e.name = c.name := by simpa using he
      have hfe : e.name = name := by simpa using List.find?_some hn
      rw [← hname, hfe, hn, Option.some.injEq] at hb
      rw [hroot, hb]
    · rfl

end Repo

namespace Store

/-- From `s` to `s'` every container keeps its root and every file stays at its place. -/
structure Retains (s s' : Store) : Prop where
  roots : ∀ name, (s'.repo.container? name).map (·.root) = (s.repo.container? name).map (·.root)
  files : s.host.disk.KeepsFiles s'.host.disk

namespace Retains

variable {s s' s'' : Store}

theorem refl (s : Store) : Retains s s := ⟨fun _ => rfl, .refl _⟩

theorem trans (h : Retains s s') (h' : Retains s' s'') : Retains s s'' :=
  ⟨fun name => (h'.roots name).trans (h.roots name), h.files.trans h'.files⟩

theorem of_containers (hc : s'.repo.containers = s.repo.containers)
    (hf : s.host.disk.KeepsFiles s'.host.disk) : Retains s s' :=
  ⟨fun name => by simp only [Repo.container?, hc], hf⟩

theorem of_disk (hc : s'.repo.containers = s.repo.containers)
    (hd : s'.host.disk = s.host.disk) : Retains s s' :=
  of_containers hc (hd ▸ .refl _)

theorem setContainer {b c : Container} (hb : s.repo.container? c.name = some b)
    (hroot : c.root = b.root) : Retains s { s with repo := s.repo.setContainer c } :=
  ⟨Repo.root_setContainer hb hroot, .refl _⟩

theorem keepsLive (h : Retains s s') : KeepsLive s s' := by
  intro k i hk
  rw [live?, Repo.livePlace?_congr h.roots k]
  cases hq : s.repo.livePlace? k with
  | none => simp [live?, hq] at hk
  | some q =>
    rw [live?, hq, Option.bind_some] at hk
    exact h.files q i hk

end Retains

end Store

/-! ## Actions that keep roots and files on any store -/

namespace Action

/-- Run on any store, the action keeps every container's root and every file. -/
def Retains {α : Type} (a : Action α) : Prop := ∀ s : Store, s.Retains (a.exec s).2

namespace Retains

variable {α β γ : Type}

theorem of_snd {a : Action α} (h : ∀ s, (a.exec s).2 = s) : a.Retains := fun s => by
  rw [h]
  exact .refl s

protected theorem pure (x : α) : (pure x : Action α).Retains := of_snd fun _ => rfl

protected theorem throw (e : StoreError) : (throw e : Action α).Retains := of_snd fun _ => rfl

protected theorem bind {x : Action α} {f : α → Action β} (hx : x.Retains)
    (hf : ∀ a, (f a).Retains) : (x >>= f).Retains := by
  intro s
  have h := hx s
  rw [exec_bind]
  rcases hr : x.exec s with ⟨_ | a, s'⟩
  · rw [hr] at h
    exact h
  · rw [hr] at h
    exact h.trans (hf a s')

protected theorem ite {c : Prop} [Decidable c] {a b : Action α} (ha : a.Retains)
    (hb : b.Retains) : (if c then a else b).Retains := by
  split
  · exact ha
  · exact hb

protected theorem attempt {a : Action α} (ha : a.Retains) : (attempt a).Retains := by
  intro s
  rw [exec_attempt]
  exact ha s

protected theorem forIn {f : γ → β → Action (ForInStep β)} {l : List γ}
    (hf : ∀ x b, (f x b).Retains) (init : β) : (forIn l init f).Retains := by
  induction l generalizing init with
  | nil => exact Retains.pure init
  | cons x l ih =>
    rw [List.forIn_cons]
    refine (hf x init).bind fun r => ?_
    cases r with
    | done b => exact Retains.pure b
    | yield b => exact ih b

end Retains

theorem retains_repo : repo.Retains := Retains.of_snd fun _ => rfl

theorem retains_host : host.Retains := Retains.of_snd fun _ => rfl

theorem retains_modifyRepo {f : Repo → Repo} (hf : ∀ r, (f r).containers = r.containers) :
    (modifyRepo f).Retains := fun s => Store.Retains.of_disk (hf s.repo) rfl

theorem retains_modifyHost {f : Host → Host} (hf : ∀ h : Host, h.disk.KeepsFiles (f h).disk) :
    (modifyHost f).Retains := fun s => Store.Retains.of_containers rfl (hf s.host)

theorem retains_tracking {α : Type} (f : Tracker → α × Tracker) : (tracking f).Retains :=
  fun _ => Store.Retains.of_disk rfl rfl

theorem retains_track (f : Tracker → Tracker) : (track f).Retains :=
  fun _ => Store.Retains.of_disk rfl rfl

theorem retains_ofIo {α : Type} (r : IoResult α) : (ofIo r).Retains :=
  Retains.of_snd fun _ => by cases r <;> rfl

theorem retains_container (name : String) : (container name).Retains :=
  Retains.of_snd fun s => by
    rw [exec_container]
    split <;> rfl

theorem retains_retireStream (c : Resource) (expected : Option Nat) :
    (retireStream c expected).Retains := by
  unfold retireStream
  refine retains_repo.bind fun r => ?_
  refine Retains.ite ((retains_modifyRepo ?_).bind fun _ => ?_) ?_
  · exact fun _ => rfl
  all_goals
    split
    · exact retains_modifyHost fun _ => .refl _
    · exact Retains.pure ()

theorem retains_newClaim (c : Resource) (offset : Nat) : (newClaim c offset).Retains := fun s => by
  rw [exec_newClaim]
  exact .of_disk rfl rfl

theorem retains_takePooled : ∀ fuel, (takePooled fuel).Retains
  | 0 => Retains.pure none
  | fuel + 1 => by
    rw [takePooled]
    refine retains_repo.bind fun r => ?_
    split
    · exact Retains.pure none
    · refine (retains_modifyRepo ?_).bind fun _ => Retains.ite ?_ ?_
      · exact fun _ => rfl
      · exact (retains_tracking _).bind fun _ => Retains.pure _
      · exact (retains_retireStream _ none).bind fun _ =>
          (retains_tracking _).bind fun _ => retains_takePooled fuel

theorem retains_mustWait (name : String) : (mustWait name).Retains := by
  intro s
  unfold mustWait
  rw [exec_bind, exec_container]
  cases hc : s.repo.container? name with
  | none => exact .refl s
  | some c =>
    simp only [exec_bind, exec_repo, exec_host, setContainer, exec_modifyRepo, exec_pure]
    obtain ⟨-, hname⟩ := Repo.mem_of_container? hc
    exact Store.Retains.setContainer (show s.repo.container? c.name = some c by rw [hname]; exact hc) rfl

theorem retains_firstOpen : ∀ l : List String, (firstOpen l).Retains
  | [] => Retains.pure none
  | name :: rest => by
    rw [firstOpen]
    refine (retains_mustWait name).bind fun w => ?_
    split
    · exact (retains_container name).bind fun _ => Retains.pure _
    · exact retains_firstOpen rest

theorem retains_selectContainer (index : Nat) : (selectContainer index).Retains :=
  retains_repo.bind fun _ => retains_firstOpen _

theorem retains_createIn (box : Container) (index : Nat) (lossTolerant : Bool) :
    (createIn box index lossTolerant).Retains := by
  intro s
  unfold createIn
  simp only [exec_bind, exec_host, exec_tracking]
  split
  · simp only [exec_bind, exec_tracking, exec_throw]
    exact .of_disk rfl rfl
  · next n h ho =>
    simp only [exec_bind, exec_modifyHost, exec_modifyRepo, exec_newClaim, exec_pure]
    exact .of_containers rfl (show s.host.disk.KeepsFiles h.disk from Host.keepsFiles_openStream ho)

theorem retains_create (lossTolerant : Bool) : (create lossTolerant).Retains := by
  unfold create
  refine retains_repo.bind fun _ => ?_
  -- a creation after shutdown fails; both branches go on with the same rest
  refine Retains.ite ((Retains.throw _).bind fun _ => ?_) ?_
  all_goals
    refine retains_repo.bind fun r => (retains_takePooled _).bind fun o => ?_
    split
    · exact (retains_newClaim _ _).bind fun _ => Retains.pure _
    · refine retains_repo.bind fun r' => ?_
      split
      refine (retains_modifyRepo ?_).bind fun _ => ?_
      · exact fun _ => rfl
      split
      · refine (retains_selectContainer _).bind fun b => ?_
        split
        · exact retains_createIn _ _ _
        · exact Retains.pure _
      · exact Retains.throw _

theorem retains_write (c : ClaimRef) : (write c).Retains := fun s => by
  by_cases h : s.host.cell c.cell < 0 ∧ ∃ n, s.repo.streamOf? c.resource = some n ∧
      (s.host.stream n).written = c.offset
  · obtain ⟨hc, n, hn, he⟩ := h
    rw [exec_write_of_open s c hc hn he]
    exact .of_disk rfl rfl
  · obtain ⟨e, he⟩ := exec_write_of_not_open s c h
    rw [he]
    exact .refl s

theorem retains_writeWith (w : Writer) (bytes : ByteArray) : (writeWith w bytes).Retains :=
  fun s => by
    rw [exec_writeWith]
    exact .of_containers rfl (Writer.keepsFiles_write w s.host bytes)

theorem retains_completeWrite (c : Resource) (stream : Nat) (failed : Bool) :
    (completeWrite c stream failed).Retains := by
  unfold completeWrite
  refine retains_repo.bind fun r => retains_host.bind fun h => ?_
  have hretire : ∀ result : IoResult Unit,
      (retireStream c (some stream) >>= fun _ => tracking (·.freeze c) >>= fun _ =>
        (pure result : Action (IoResult Unit))).Retains := fun _ =>
    (retains_retireStream _ _).bind fun _ => (retains_tracking _).bind fun _ => Retains.pure _
  split
  refine Retains.ite (Retains.ite ?_ (hretire _)) (hretire _)
  split
  · refine (retains_modifyRepo ?_).bind fun _ => Retains.pure _
    exact fun _ => rfl
  · exact hretire _

theorem retains_endWriter (w : Writer)
    (finish : Writer → Host → Option (IoResult Unit × Bool) × Writer) :
    (endWriter w finish).Retains := by
  unfold endWriter
  refine retains_host.bind fun h => ?_
  split
  · exact Retains.pure _
  · exact (retains_completeWrite _ _ _).bind fun _ => Retains.pure _

theorem retains_abortWriter (w : Writer) : (abortWriter w).Retains :=
  (retains_endWriter _ _).bind fun _ => Retains.pure ()

theorem retains_closeWriter (w : Writer) : (closeWriter w).Retains :=
  (retains_endWriter _ _).bind fun r => retains_ofIo r

theorem retains_fill (w : Writer) (bytes : ByteArray) : (fill w bytes).Retains := by
  unfold fill writeAll
  refine Retains.bind ?_ fun x => ?_
  · refine Retains.ite (Retains.pure _) ((retains_writeWith _ _).bind fun _ => Retains.pure _)
  · split
    · exact (retains_abortWriter _).bind fun _ => Retains.throw _
    · exact (retains_closeWriter _).bind fun _ => Retains.pure _

theorem retains_importBytes (c : ClaimRef) (bytes : ByteArray) : (importBytes c bytes).Retains :=
  (retains_write c).bind fun w => retains_fill w bytes

theorem retains_importPath (c : ClaimRef) (source : String) : (importPath c source).Retains := by
  unfold importPath importNode
  refine retains_host.bind fun h => (retains_ofIo _).bind fun n => (retains_write c).bind fun w => ?_
  split
  · exact (retains_abortWriter _).bind fun _ => Retains.throw _
  · exact retains_host.bind fun _ => retains_fill _ _

theorem retains_read (c : ClaimRef) : (read c).Retains := Retains.of_snd fun s => read_snd s c

theorem retains_pump (r : Reading) (w : Writer) (moved : Nat) :
    ∀ fuel, (pump r w moved fuel).Retains
  | 0 => Retains.pure _
  | fuel + 1 => by
    rw [pump]
    refine retains_host.bind fun h => ?_
    split
    · exact Retains.pure _
    · refine Retains.ite (Retains.pure _) ((retains_writeWith _ _).bind fun x => ?_)
      split
      · exact Retains.pure _
      · exact retains_pump _ _ _ fuel

theorem retains_copyClaim (original copy : ClaimRef) : (copyClaim original copy).Retains := by
  unfold copyClaim
  refine (retains_write copy).bind fun w => (retains_read original).attempt.bind fun o => ?_
  split
  · exact (retains_abortWriter _).bind fun _ => Retains.throw _
  · refine retains_host.bind fun h => Retains.ite (Retains.pure _)
      ((retains_pump _ _ _ _).bind fun x => ?_)
    split
    · exact (retains_abortWriter _).bind fun _ => Retains.throw _
    · exact (retains_closeWriter _).bind fun _ => Retains.pure _

end Action

/-! ## Destroying a claim takes only its own file -/

namespace FileSystem.Disk


variable {d d' d'' : Disk}

/-- Every file stays, except at or below the places `L` and `A`. -/
def KeepsFilesAway (L A : Place) (d d' : Disk) : Prop :=
  ∀ q i, ¬ L <+: q → ¬ A <+: q → d.node? q = some (.file i) → d'.node? q = some (.file i)

theorem KeepsFiles.away {L A : Place} (h : KeepsFiles d d') : KeepsFilesAway L A d d' :=
  fun q i _ _ hq => h q i hq

theorem KeepsFiles.then_away {L A : Place} (h : KeepsFiles d d') (h' : KeepsFilesAway L A d' d'') :
    KeepsFilesAway L A d d'' :=
  fun q i hL hA hq => h' q i hL hA (h q i hq)

theorem keepsFilesAway_removeFile {L A : Place} (h : d.removeFile L = .ok d') :
    KeepsFilesAway L A d d' := by
  unfold removeFile at h
  cases hl : d.lookup L with
  | error e => simp [hl, bind, Except.bind] at h
  | ok o =>
    rcases o with _ | _ | j <;>
      simp [hl, bind, Except.bind, throw, throwThe, MonadExceptOf.throw, pure, Except.pure] at h
    subst h
    intro q i hL _ hq
    rw [node?_drop, if_neg fun h => hL h.1]
    exact hq

theorem keepsFilesAway_rename {L A : Place} (h : d.rename L A = .ok d') :
    KeepsFilesAway L A d d' := by
  obtain ⟨-, -, ⟨-, rfl⟩ | ⟨-, -, -, hnode⟩⟩ := rename_eq_ok h
  · exact (KeepsFiles.refl _).away
  · intro q i hL hA hq
    have hq0 : q ≠ [] := by
      rintro rfl
      rw [node?_nil] at hq
      cases hq
    rw [hnode q hq0, if_neg hA, if_neg hL]
    exact hq

end FileSystem.Disk

namespace Repo

variable {r : Repo} {k : ClaimKey} {q : Place}

theorem livePlace?_eq_some : r.livePlace? k = some q ↔
    ∃ c p, r.container? k.1 = some c ∧ place? c.root = some p ∧ q = p ++ [k.2.1, k.2.2] := by
  simp only [livePlace?, Option.bind_eq_bind, Option.bind_eq_some_iff, Option.pure_def,
    Option.some.injEq]
  constructor
  · rintro ⟨c, hc, p, hp, rfl⟩
    exact ⟨c, p, hc, hp, rfl⟩
  · rintro ⟨c, p, hc, hp, rfl⟩
    exact ⟨c, hc, p, hp, rfl⟩

variable (hL : Layout r.containers) {c : Resource} {box : Container} {p : Place}
include hL

theorem key_of_livePlace? (hbox : r.container? c.container = some box)
    (hp : place? box.root = some p) (hk : r.livePlace? k = some q) (hq : livePlace p c <+: q) :
    k = c.key := by
  obtain ⟨b, p', hb, hp', rfl⟩ := livePlace?_eq_some.1 hk
  obtain ⟨hboxm, hboxn⟩ := mem_of_container? hbox
  obtain ⟨hbm, hbn⟩ := mem_of_container? hb
  obtain ⟨rfl, rfl, hu⟩ := hL.prefix_same hboxm hbm hp hp' hq
  have hsame : [c.sectionName, c.id] = [k.2.1, k.2.2] := hu.eq_of_length rfl
  simp only [List.cons.injEq, and_true] at hsame
  obtain ⟨k1, k2, k3⟩ := k
  simp only at hbn hsame
  rw [Resource.key, ← hbn, hboxn, hsame.1, hsame.2]

theorem not_archive_prefix (hbox : box ∈ r.containers) (hp : place? box.root = some p)
    (sec n : String) (hk : r.livePlace? k = some q) : ¬ p ++ [sec, Archive.dirName, n] <+: q := by
  obtain ⟨b, p', hb, hp', rfl⟩ := livePlace?_eq_some.1 hk
  intro hq
  obtain ⟨-, -, hu⟩ := hL.prefix_same hbox (mem_of_container? hb).1 hp hp' hq
  have := hu.length_le
  simp at this

end Repo

namespace Store

variable {s s' : Store}

theorem idle_of_records (hrec : ∀ k, s'.repo.tracker.record k = s.repo.tracker.record k) (k : ClaimKey)
    (hk : s.Idle k) : s'.Idle k := by
  rw [Idle, hrec]
  exact hk

theorem Spares.of_keepsLive (hidle : ∀ k, s.Idle k → s'.Idle k) (h : KeepsLive s s') :
    Spares s s' :=
  ⟨hidle, h.frees⟩

theorem Spares.of_retains (hidle : ∀ k, s.Idle k → s'.Idle k) (h : s.Retains s') : Spares s s' :=
  .of_keepsLive hidle h.keepsLive

theorem Spares.of_destroy (hL : Layout s.repo.containers) {c : Resource} {box : Container}
    {p : Place} (hbox : s.repo.container? c.container = some box) (hp : place? box.root = some p)
    (hc : s.Idle c.key) (hidle : ∀ k, s.Idle k → s'.Idle k)
    (hroots : ∀ name, (s'.repo.container? name).map (·.root) = (s.repo.container? name).map (·.root))
    (hd : s.host.disk.KeepsFilesAway (livePlace p c) (archivePlace p c) s'.host.disk) :
    Spares s s' where
  idle := hidle
  frees k i hk hgone := by
    cases hq : s.repo.livePlace? k with
    | none => simp [live?, hq] at hk
    | some q =>
      rw [live?, hq, Option.bind_some] at hk
      rw [live?, Repo.livePlace?_congr hroots, hq, Option.bind_some] at hgone
      -- the file went, so its place lies at or below the claim's live place
      have hat : livePlace p c <+: q := by
        refine Classical.byContradiction fun hL' => hgone (hd q i hL' ?_ hk)
        exact Repo.not_archive_prefix hL (Repo.mem_of_container? hbox).1 hp _ _ hq
      rw [Repo.key_of_livePlace? hL hbox hp hq hat]
      exact hidle _ hc

end Store

namespace Action

/-- Run on a world that satisfies the invariant, the action keeps it and spares live files. -/
def Spares {α : Type} (a : Action α) : Prop :=
  ∀ W : World, Inv W → Inv { W with store := (a.exec W.store).2 } ∧ W.store.Spares (a.exec W.store).2

namespace Spares

variable {α β γ : Type}

theorem keeps {a : Action α} (ha : a.Spares) : a.Keeps := fun W hI => (ha W hI).1

theorem of_retains {a : Action α} (hk : a.Keeps) (ha : a.Retains)
    (hidle : ∀ s k, s.Idle k → (a.exec s).2.Idle k) : a.Spares :=
  fun W hI => ⟨hk W hI, .of_retains (hidle W.store) (ha W.store)⟩

protected theorem pure (x : α) : (pure x : Action α).Spares := fun W hI => ⟨hI, .refl W.store⟩

protected theorem throw (e : StoreError) : (throw e : Action α).Spares :=
  fun W hI => ⟨hI, .refl W.store⟩

protected theorem bind {x : Action α} {f : α → Action β} (hx : x.Spares)
    (hf : ∀ a, (f a).Spares) : (x >>= f).Spares := by
  intro W hI
  obtain ⟨hI', h⟩ := hx W hI
  rw [exec_bind]
  rcases hr : x.exec W.store with ⟨_ | a, s⟩
  · rw [hr] at h hI'
    exact ⟨hI', h⟩
  · rw [hr] at h hI'
    obtain ⟨hI'', h'⟩ := hf a { W with store := s } hI'
    exact ⟨hI'', h.trans h'⟩

protected theorem attempt {a : Action α} (ha : a.Spares) : (attempt a).Spares := by
  intro W hI
  rw [exec_attempt]
  exact ha W hI

protected theorem foldlM {f : β → γ → Action β} {l : List γ} (hf : ∀ b, ∀ x ∈ l, (f b x).Spares)
    (init : β) : (l.foldlM f init).Spares := by
  induction l generalizing init with
  | nil => exact Spares.pure init
  | cons x l ih =>
    rw [List.foldlM_cons]
    exact (hf init x List.mem_cons_self).bind fun b =>
      ih (fun b y hy => hf b y (List.mem_cons_of_mem _ hy)) b

protected theorem forIn {f : γ → β → Action (ForInStep β)} {l : List γ}
    (hf : ∀ x ∈ l, ∀ b, (f x b).Spares) (init : β) : (forIn l init f).Spares := by
  induction l generalizing init with
  | nil => exact Spares.pure init
  | cons x l ih =>
    rw [List.forIn_cons]
    refine (hf x List.mem_cons_self init).bind fun r => ?_
    cases r with
    | done b => exact Spares.pure b
    | yield b => exact ih (fun y hy => hf y (List.mem_cons_of_mem _ hy)) b

end Spares

theorem spares_repo : repo.Spares := Spares.of_retains keeps_repo retains_repo fun _ _ => id

variable {r : Resource}

/-- Removing a claim takes its file only once its destruction began: it was idle. -/
theorem spares_removeResource (hr : r.Plain) : (removeResource r).Spares := by
  refine fun W hI => ⟨keeps_removeResource hr W hI, ?_⟩
  cases hbox : W.store.repo.container? r.container with
  | none =>
    rw [exec_removeResource_of_none _ hbox]
    exact .refl _
  | some box =>
    obtain ⟨hmem, -⟩ := Repo.mem_of_container? hbox
    obtain ⟨p, hp⟩ := Option.isSome_iff_exists.1 (hI.layout.rooted box hmem)
    cases hb : (W.store.repo.tracker.beginDestruction r .removed).1 with
    | false =>
      rw [exec_removeResource_of_not_begin _ hbox hb]
      exact .of_retains (Store.idle_of_records fun _ => Tracker.record_of_not_begin _ _ _ hb)
        (.of_disk rfl rfl)
    | true =>
      obtain ⟨h0, hfrozen, -⟩ := (Tracker.beginDestruction_fst _ _ _).1 hb
      rw [exec_removeResource_of_begin _ hbox hb (hI.streamOf?_of_begin hb)]
      dsimp only
      split
      · next d hd =>
        rw [removeFileAt_claimPath hp hr] at hd
        exact .of_destroy hI.layout hbox hp ⟨h0, hfrozen⟩
          (Store.idle_of_records fun _ => Tracker.record_finish_of_begin _ _ _ hb) (fun _ => rfl)
          (FileSystem.Disk.keepsFilesAway_removeFile hd)
      · exact .of_retains (Store.idle_of_records fun _ => Tracker.record_finish_of_begin _ _ _ hb)
          (.of_disk rfl rfl)
      · exact .of_retains (Store.idle_of_records fun _ => Tracker.record_abort_of_begin _ _ _ hb)
          (.of_disk rfl rfl)

/-- Archiving a claim moves its file only once its destruction began: it was idle. -/
theorem spares_archive (hr : r.Plain) : (archive r).Spares := by
  refine fun W hI => ⟨keeps_archive hr W hI, ?_⟩
  cases ha : W.store.repo.settings.archiveEnabled with
  | false =>
    rw [exec_archive_of_off _ ha]
    exact .refl _
  | true =>
  cases hbox : W.store.repo.container? r.container with
  | none =>
    rw [exec_archive_of_none _ ha hbox]
    exact .refl _
  | some box =>
    obtain ⟨hmem, hname⟩ := Repo.mem_of_container? hbox
    obtain ⟨p, hp⟩ := Option.isSome_iff_exists.1 (hI.layout.rooted box hmem)
    cases hb : (W.store.repo.tracker.beginDestruction r .archived).1 with
    | false =>
      rw [exec_archive_of_not_begin _ ha hbox hb]
      exact .of_retains (Store.idle_of_records fun _ => Tracker.record_of_not_begin _ _ _ hb)
        (.of_disk rfl rfl)
    | true =>
      obtain ⟨h0, hfrozen, -⟩ := (Tracker.beginDestruction_fst _ _ _).1 hb
      rw [exec_archive_of_begin _ ha hbox hb (hI.streamOf?_of_begin hb)]
      dsimp only
      split
      · next moved d hd =>
        have haway : W.store.host.disk.KeepsFilesAway (livePlace p r) (archivePlace p r) d := by
          rcases archiveFile_cases hp hr hd with rfl | hmv | ⟨d1, hm, hmv⟩
          · exact (FileSystem.Disk.KeepsFiles.refl _).away
          · exact FileSystem.Disk.keepsFilesAway_rename hmv
          · exact (FileSystem.Disk.keepsFiles_makeDirs hm).then_away (FileSystem.Disk.keepsFilesAway_rename hmv)
        have hbox' : W.store.repo.container? box.name = some box := by rw [hname]; exact hbox
        refine .of_destroy hI.layout hbox hp ⟨h0, hfrozen⟩ (Store.idle_of_records fun _ => ?_)
          (fun name => ?_) haway
        · cases moved <;> exact Tracker.record_finish_of_begin _ _ _ hb
        · cases moved
          · rfl
          · exact Repo.root_setContainer (c := { box with gate := box.gate.incArchived }) hbox' rfl name
      · exact .of_retains (Store.idle_of_records fun _ => Tracker.record_abort_of_begin _ _ _ hb)
          (.of_disk rfl rfl)

theorem spares_destroy (report : Destruction) {c : Resource} (hc : c.Plain) :
    (destroy report c).Spares := by
  unfold destroy
  refine spares_repo.bind fun rp => (Spares.attempt ?_).bind fun o => ?_
  · split
    · exact spares_archive hc
    · exact spares_removeResource hc
  · split <;> exact Spares.pure _

theorem spares_archiveOrDestroy (report : Destruction) (name : String) :
    (archiveOrDestroy report name).Spares := by
  intro W hI
  unfold archiveOrDestroy
  rw [exec_bind, exec_container]
  cases hbox : W.store.repo.container? name with
  | none => exact ⟨hI, .refl _⟩
  | some box =>
    obtain ⟨hmem, hname⟩ := Repo.mem_of_container? hbox
    dsimp only
    have hI' := hI.setContainer hmem
      { box with reclaimable := (box.reclaimable.drain box.reclaimable.size).2 } rfl rfl rfl
      (fun x hx => hI.binned box hmem x (List.mem_of_mem_drop hx)) (hI.filed box hmem)
    have hbin : W.store.Spares
        { W.store with
          repo := W.store.repo.setContainer
            { box with reclaimable := (box.reclaimable.drain box.reclaimable.size).2 } } :=
      .of_retains (fun _ => id) (.setContainer (b := box) (by rw [← hname] at hbox; exact hbox) rfl)
    rw [setContainer, exec_bind, exec_modifyRepo]
    obtain ⟨hI'', h⟩ := Spares.foldlM (fun b x hx => spares_destroy b (hI.binned box hmem x
      (List.mem_of_mem_take hx))) report _ hI'
    exact ⟨hI'', hbin.trans h⟩

theorem spares_runDestruction : runDestruction.Spares := by
  intro W hI
  unfold runDestruction
  rw [exec_bind, exec_repo]
  simp only [Tracker.drainDestructable, Fifo.drain]
  rw [exec_bind, exec_modifyRepo]
  have hI' := hI.tracker { W.store.repo.tracker with queue :=
      (W.store.repo.tracker.queue.drain W.store.repo.tracker.pending).2 } (fun _ => rfl)
    fun c hc => hI.queued c (List.mem_of_mem_drop hc)
  have hdrain : W.store.Spares
      { W.store with
        repo := { W.store.repo with
          tracker := { W.store.repo.tracker with
            queue := (W.store.repo.tracker.queue.drain W.store.repo.tracker.pending).2 } } } :=
    .of_retains (fun _ => id) (.of_disk rfl rfl)
  obtain ⟨hI'', h⟩ := (Spares.bind (Spares.foldlM (fun b x hx => spares_destroy b
      (hI.queued x (List.mem_of_mem_take hx))) {}) fun report =>
    spares_repo.bind fun rp => Spares.foldlM (fun b name _ => spares_archiveOrDestroy b name)
      report) _ hI'
  exact ⟨hI'', hdrain.trans h⟩

theorem spares_cleanup : cleanup.Spares := by
  unfold cleanup
  refine spares_repo.bind fun rp => spares_repo.bind fun rp' =>
    (Spares.forIn (fun name _ report => ?_) _).bind fun _ => Spares.pure _
  refine (Spares.of_retains (keeps_container name) (retains_container name)
    fun s k => by rw [exec_container]; split <;> exact id).bind fun box => ?_
  intro W hI
  rw [exec_bind, exec_host]
  refine ((Spares.forIn (fun c hc report => ?_) _).bind fun _ => Spares.pure _) _ hI
  have hp := plain_of_liveClaims hI.sound hc
  refine spares_repo.bind fun rt => ?_
  split
  · exact Spares.pure _
  · refine (Spares.attempt ?_).bind fun o => ?_
    · split
      · exact spares_archive hp
      · exact spares_removeResource hp
    · split <;> exact Spares.pure _

theorem spares_decrement (hr : r.Plain) : (tracking (·.decrement r)).Spares :=
  Spares.of_retains (keeps_decrement hr) (retains_tracking _) fun s k hk => by
    have hrec : (s.repo.tracker.decrement r).2.record k = s.repo.tracker.record k := by
      rw [Tracker.record_decrement, if_neg]
      rintro ⟨rfl, hpos⟩
      exact absurd hk.1 (Nat.pos_iff_ne_zero.1 hpos)
    rw [exec_tracking, Store.Idle]
    dsimp only
    rw [hrec]
    exact hk

theorem spares_rollback {c : ClaimRef} (hr : c.resource.Plain) {W : World} (hI : Inv W)
    (hreg : W.store.repo.registered c.resource.key = false) :
    W.store.Spares ((rollback c).exec W.store).2 := by
  -- a claim without a stream is not writable, so there is no stream to retire
  have hw : (W.store.repo.tracker.state c.resource).isWritable = false := by
    rw [← hreg, hI.writable]
    rfl
  unfold rollback
  simp only [exec_bind, exec_repo, hw]
  exact (((spares_decrement hr).bind fun _ => (spares_removeResource hr).attempt.bind
    fun _ => Spares.pure _) W hI).2

variable {W : World}

/-- An expiration pass deletes files in the container's archive directories only, and no live
place lies there. -/
theorem keepsLive_expireWith (hI : Inv W) (name : String) :
    W.store.KeepsLive ((expireWith name Container.expire).exec W.store).2 := by
  unfold expireWith
  rw [exec_bind, exec_container]
  cases hbox : W.store.repo.container? name with
  | none => exact .refl _
  | some box =>
    obtain ⟨hmem, hname⟩ := Repo.mem_of_container? hbox
    simp only [exec_bind, exec_repo, exec_host]
    obtain ⟨p, hp⟩ := Option.isSome_iff_exists.1 (hI.layout.rooted box hmem)
    have hdel := Container.expire_deletes box W.store.host.disk W.store.repo.probe
      W.store.host.now (W.store.repo.settings.retentionNanos / 1000000)
    have hconf := Container.expire_confined box W.store.host.disk W.store.repo.probe
      W.store.host.now (W.store.repo.settings.retentionNanos / 1000000) hp (hI.filed box hmem)
      hI.sound
    generalize Container.expire box W.store.host.disk W.store.repo.probe W.store.host.now
      (W.store.repo.settings.retentionNanos / 1000000) = x at hdel hconf ⊢
    obtain ⟨o, box', d'⟩ := x
    simp only [exec_modifyHost, setContainer, exec_modifyRepo, exec_ofIo]
    have hroots := Repo.root_setContainer (r := W.store.repo) (c := box') (b := box)
      (by rw [hdel.name, hname]; exact hbox) hdel.root
    intro k i hk
    cases hq : W.store.repo.livePlace? k with
    | none => simp [Store.live?, hq] at hk
    | some q =>
      rw [Store.live?, hq, Option.bind_some] at hk
      rw [Store.live?, Repo.livePlace?_congr hroots, hq, Option.bind_some]
      rw [hconf.node hI.sound p hp q fun sec n h =>
        Repo.not_archive_prefix hI.layout hmem hp sec n hq (h ▸ List.prefix_refl _)]
      exact hk

theorem keepsLive_expireNow (hI : Inv W) (name : String) :
    W.store.KeepsLive ((expireNow name).exec W.store).2 := by
  unfold expireNow
  rw [exec_bind, exec_attempt]
  have h1 := keepsLive_expireWith hI name
  have hI1 := keeps_expireWith name W hI
  generalize (expireWith name Container.expire).exec W.store = x at h1 hI1
  obtain ⟨o, s1⟩ := x
  dsimp only at h1 hI1 ⊢
  rw [exec_bind, exec_repo]
  dsimp only
  cases hbox : s1.repo.container? name with
  | none => cases o <;> exact h1
  | some box =>
    obtain ⟨-, hname⟩ := Repo.mem_of_container? hbox
    simp only [exec_bind, exec_repo, exec_host, setContainer, exec_modifyRepo]
    cases o <;> exact h1.trans (Store.Retains.keepsLive
      (Store.Retains.setContainer (b := box) (by rw [hname]; exact hbox) rfl))

end Action

/-! ## A step frees a live file only from an idle claim -/

/-- Whether a step may destroy claims: removing, archiving, a round of destruction, a cleanup,
or a clone, whose failed copy is rolled back. -/
def Step.destroys : Step → Bool
  | .clone _ _ | .remove _ | .archive _ | .destroy | .cleanup => true
  | _ => false

namespace Inv

variable {W : World}

theorem keepsLive_of_retains {α : Type} {a : Action α} (ha : a.Retains)
    {o : Except StoreError α} {s : Store} (h : a.exec W.store = (o, s)) : W.store.KeepsLive s := by
  have hr := ha W.store
  rw [h] at hr
  exact hr.keepsLive

theorem frees_of_spares {α : Type} {a : Action α} (ha : a.Spares) (hI : Inv W) :
    W.store.Frees (a.exec W.store).2 :=
  (ha W hI).2.frees

/-- A clone creates a claim and copies into it, keeping every live file; a failed copy is rolled
back, which removes the new claim's file only once it is idle. -/
theorem frees_clone (hI : Inv W) (hids : W.store.repo.ids.value + 1 < 2 ^ 64) (original : ClaimRef)
    (lossTolerant : Bool) : W.store.Frees ((Action.clone original lossTolerant).exec W.store).2 := by
  unfold Action.clone
  rw [Action.exec_bind]
  rcases hcr : (Action.create lossTolerant).exec W.store with ⟨_ | (copy | _), s1⟩
  · exact (keepsLive_of_retains (Action.retains_create lossTolerant) hcr).frees
  · have h1 := Action.retains_create lossTolerant W.store
    rw [hcr] at h1
    obtain ⟨hplain, hcopy⟩ := hI.clone_copy hids hcr original
    simp only [Action.exec_bind, Action.exec_attempt]
    have h2 := Action.retains_copyClaim original copy s1
    rcases hcp : (Action.copyClaim original copy).exec s1 with ⟨_ | u, s2⟩ <;>
      rw [hcp] at hcopy h2 <;> dsimp only at hcopy h2 ⊢
    · -- the rollback runs on a store of a world that satisfies the invariant
      obtain ⟨x, -, hI2, hres⟩ := hcopy.resolve_left (by simp)
      have h3 := Action.spares_rollback hplain hI2 (hres.resolve_left nofun)
      rw [Action.exec_bind]
      rcases hrb : (Action.rollback copy).exec s2 with ⟨_ | _, s3⟩ <;> rw [hrb] at h3 <;>
        exact (h1.trans h2).keepsLive.then_frees h3.frees
    · cases u <;> exact (h1.trans h2).keepsLive.frees
  · exact (keepsLive_of_retains (Action.retains_create lossTolerant) hcr).frees

/-- A step that destroys nothing keeps every live file. -/
theorem step_keepsLive (hI : Inv W) (st : Step) (hd : st.destroys = false) :
    W.store.KeepsLive (W.step st).store := by
  cases st with
  | create lossTolerant =>
    simp only [World.step]
    split <;> next h => exact keepsLive_of_retains (Action.retains_create lossTolerant) h
  | write k =>
    simp only [World.step]
    split
    · split <;> next h => exact keepsLive_of_retains (Action.retains_write _) h
    · exact .refl _
  | send k bytes =>
    simp only [World.step]
    split
    · split <;> next h => exact keepsLive_of_retains (Action.retains_writeWith _ _) h
    · exact .refl _
  | flush k =>
    simp only [World.step]
    split <;> exact .refl _
  | close k =>
    simp only [World.step]
    split
    · exact (Action.retains_endWriter _ _ W.store).keepsLive
    · exact .refl _
  | abort k =>
    simp only [World.step]
    split
    · exact (Action.retains_endWriter _ _ W.store).keepsLive
    · exact .refl _
  | importBytes k bytes =>
    simp only [World.step]
    split
    · exact (Action.retains_importBytes _ _ W.store).keepsLive
    · exact .refl _
  | importPath k source =>
    simp only [World.step]
    split
    · exact (Action.retains_importPath _ _ W.store).keepsLive
    · exact .refl _
  | increment r => exact (Action.retains_tracking (·.increment r false) W.store).keepsLive
  | decrement r => exact (Action.retains_tracking (·.decrement r) W.store).keepsLive
  | expire name => exact Action.keepsLive_expireNow hI name
  | wait ms =>
    simp only [World.step, World.after]
    rw [Action.exec_pass_of_idle _ _ hI.running.2]
    exact (Store.Retains.of_disk rfl rfl).keepsLive
  | clone | remove | archive | destroy | cleanup => cases hd

theorem step_frees (hI : Inv W) (st : Step) (hplain : st.PlainClaims)
    (hids : st.numbers → W.store.repo.ids.value + 1 < 2 ^ 64) : W.store.Frees (W.step st).store := by
  cases hd : st.destroys
  · exact (hI.step_keepsLive st hd).frees
  cases st with
  | clone original lossTolerant =>
    simp only [World.step]
    split
    · exact (Store.KeepsLive.refl _).frees
    · next h => simpa only [World.after, h] using hI.frees_clone (hids rfl) original lossTolerant
  | remove r => exact frees_of_spares (Action.spares_removeResource hplain) hI
  | archive r => exact frees_of_spares (Action.spares_archive hplain) hI
  | destroy => exact frees_of_spares Action.spares_runDestruction hI
  | cleanup => exact frees_of_spares Action.spares_cleanup hI
  | _ => cases hd

end Inv

end ClaimStore
