import ClaimStore.Proofs.Disk.Operations
/-!
# Where new files appear

`AddsFilesIn S d d'` says that every file `d'` holds was at its place on `d` already, or lies
at a place of `S`: the disk gained files only there. Every operation of the file system names
the places it may fill. Making directories and unlinking add no file; opening a file for writing
adds at most the file it opens; a move adds only what lands at or below its target, since it
takes the entries at and below its source there.
-/

set_option autoImplicit false

namespace ClaimStore.FileSystem.Disk

variable {d d' d'' : Disk} {S T : Place → Prop} {p : Place}

/-- Every file of `d'` was at its place on `d` already, but at the places `S`. -/
def AddsFilesIn (S : Place → Prop) (d d' : Disk) : Prop :=
  ∀ q i, d'.node? q = some (.file i) → d.node? q = some (.file i) ∨ S q

namespace AddsFilesIn

theorem refl (S : Place → Prop) (d : Disk) : AddsFilesIn S d d := fun _ _ h => .inl h

theorem trans (h : AddsFilesIn S d d') (h' : AddsFilesIn S d' d'') : AddsFilesIn S d d'' := by
  intro q i hq
  rcases h' q i hq with hq' | hS
  · exact h q i hq'
  · exact .inr hS

theorem mono (h : AddsFilesIn S d d') (hST : ∀ q, S q → T q) : AddsFilesIn T d d' :=
  fun q i hq => (h q i hq).imp_right (hST q)

theorem of_node (h : ∀ q, d'.node? q = d.node? q) : AddsFilesIn S d d' :=
  fun q _ hq => .inl ((h q).symm.trans hq)

end AddsFilesIn

theorem addsFilesIn_set (n : Node) : AddsFilesIn (· = p) d (d.set p n) := by
  intro q i hq
  rw [node?_set] at hq
  split at hq
  · next h => exact .inr h.1
  · exact .inl hq

theorem addsFilesIn_drop (S : Place → Prop) : AddsFilesIn S d (d.drop p) := by
  intro q i hq
  rw [node?_drop] at hq
  split at hq
  · cases hq
  · exact .inl hq

theorem Unlinked.addsFilesIn (h : Unlinked d d') (S : Place → Prop) : AddsFilesIn S d d' :=
  fun _ _ hq => .inl (h.of_some hq)

theorem addsFilesIn_makeDirs (h : d.makeDirs p = .ok d') (S : Place → Prop) : AddsFilesIn S d d' := by
  unfold makeDirs at h
  cases hp : d.node? p with
  | some n =>
    rcases n with _ | i <;> simp [hp, throw, throwThe, MonadExceptOf.throw, pure,
      Except.pure] at h
    exact h ▸ .refl S d
  | none =>
    simp only [hp] at h
    split at h
    · cases h
    simp only [pure, Except.pure, Except.ok.injEq] at h
    subst h
    intro q i hq
    rw [node?_foldl_set_dir] at hq
    split at hq
    · cases hq
    · exact .inl hq

theorem addsFilesIn_makeDirsAt {t : String} (h : d.makeDirsAt t = .ok d') (S : Place → Prop) :
    AddsFilesIn S d d' := by
  unfold makeDirsAt at h
  split at h
  · cases h
    exact .refl S d
  · cases hp : placeOf t with
    | error e => simp [hp, bind, Except.bind] at h
    | ok p => simp only [hp, bind, Except.bind] at h; exact addsFilesIn_makeDirs h S

theorem addsFilesIn_openWrite {how : Opening} {now i : Nat} (h : d.openWrite p how now = .ok (i, d')) :
    AddsFilesIn (· = p) d d' := by
  unfold openWrite at h
  cases hl : d.lookup p with
  | error e => simp [hl, bind, Except.bind] at h
  | ok o =>
    rw [hl] at h
    rcases o with _ | _ | j
    · simp only [bind, Except.bind, allocate, pure, Except.pure, Except.ok.injEq,
        Prod.mk.injEq] at h
      obtain ⟨-, rfl⟩ := h
      exact (AddsFilesIn.of_node fun q => rfl).trans (addsFilesIn_set _)
    · simp [bind, Except.bind, throw, throwThe, MonadExceptOf.throw] at h
    · cases how <;> simp [bind, Except.bind, throw, throwThe, MonadExceptOf.throw, pure,
        Except.pure] at h
      · exact h.2 ▸ .refl _ d
      · exact h.2 ▸ AddsFilesIn.of_node fun q => node?_store d j _ now q

theorem addsFilesIn_removeFile (h : d.removeFile p = .ok d') (S : Place → Prop) :
    AddsFilesIn S d d' := by
  unfold removeFile at h
  cases hl : d.lookup p with
  | error e => simp [hl, bind, Except.bind] at h
  | ok o =>
    rcases o with _ | _ | j <;>
      simp [hl, bind, Except.bind, throw, throwThe, MonadExceptOf.throw, pure, Except.pure] at h
    subst h
    exact addsFilesIn_drop S

theorem addsFilesIn_removeFileAt {t : String} (h : d.removeFileAt t = .ok d') (S : Place → Prop) :
    AddsFilesIn S d d' := by
  unfold removeFileAt at h
  cases hp : placeOf t with
  | error e => simp [hp, bind, Except.bind] at h
  | ok p => simp only [hp, bind, Except.bind] at h; exact addsFilesIn_removeFile h S

theorem addsFilesIn_rename {src dst : Place} (h : d.rename src dst = .ok d') :
    AddsFilesIn (dst <+: ·) d d' := by
  obtain ⟨-, -, ⟨-, rfl⟩ | ⟨-, -, -, hnode⟩⟩ := rename_eq_ok h
  · exact .refl _ _
  · intro q i hq
    have hq0 : q ≠ [] := by
      rintro rfl
      rw [node?_nil] at hq
      cases hq
    rw [hnode q hq0] at hq
    split at hq
    · next hdst => exact .inr hdst
    · split at hq
      · cases hq
      · exact .inl hq

end ClaimStore.FileSystem.Disk
