import ClaimStore.Proofs.Repo.Aborting
import ClaimStore.Proofs.Repo.Pumping
/-!
# Exporting a range of a claim

An export of the range `[o, o + l)` of a claim checks the range against the claim's size, its
length when known and otherwise what its file holds past its offset. Within the bound it opens
the claim for reading, skips `o` bytes, and takes `l` more in one read. The skip is checked: a
claim that yields fewer than `o` bytes has lost its content. The take is not, so a claim whose
recorded length passes its stored bytes exports fewer than `l` bytes.

`range_export_is_exact_slice` says what an export does in every store: it is refused exactly
when the range passes the bound; it fails as reading the claim fails; and when what the claim
yields holds the whole range, it is exactly that slice. Into a file, the slice is written to the
destination opened, unless the destination is the claim's own file.

The reading actions (`size`, `read`, `exportAll`) leave the store as it is: `Action.ReadOnly`.
-/

set_option autoImplicit false

namespace ClaimStore.Reader

/-! ## Skipping and taking from a source -/

/-- Within what a reader from `off` yields to the end of a source, skipping `o` bytes and then
taking `l` more reads exactly the slice `[o, o + l)` of it. -/
theorem skip_take (src : ByteArray) (lim : Option Nat) (off : Nat) {o l : Nat}
    (hol : o + l ≤ ((start off).read src lim src.size).1.size) :
    (start off).read src lim o = (((start off).read src lim src.size).1.extract 0 o, ⟨off + o, o⟩) ∧
      ((⟨off + o, o⟩ : Reader).read src lim l).1 =
        ((start off).read src lim src.size).1.extract o (o + l) := by
  cases lim with
  | none =>
    simp only [start, read, window, ByteArray.size_extract] at hol ⊢
    have h1 : min o (src.size - off) = o := by omega
    have h2 : min (off + o) (off + min src.size (src.size - off)) = off + o := by omega
    have h3 : min l (src.size - (off + o)) = l := by omega
    have h4 : min (off + (o + l)) (off + min src.size (src.size - off)) = off + o + l := by omega
    rw [ByteArray.extract_extract, ByteArray.extract_extract, h1, h2, h3, h4]
    simp
  | some L =>
    simp only [start, read, window, ByteArray.size_extract] at hol ⊢
    have h1 : min (min o (L - 0)) (src.size - off) = o := by omega
    have h2 : min (off + o) (off + min (min src.size (L - 0)) (src.size - off)) = off + o := by omega
    have h3 : min (min l (L - o)) (src.size - (off + o)) = l := by omega
    have h4 : min (off + (o + l)) (off + min (min src.size (L - 0)) (src.size - off)) =
        off + o + l := by omega
    rw [ByteArray.extract_extract, ByteArray.extract_extract, h1, h2, h3, h4]
    simp

theorem skip_short (src : ByteArray) (lim : Option Nat) (off : Nat) {o : Nat}
    (ho : ((start off).read src lim src.size).1.size < o) : ((start off).read src lim o).1.size < o := by
  cases lim <;> simp only [start, read, window, ByteArray.size_extract] at ho ⊢ <;> omega

end ClaimStore.Reader

namespace ClaimStore.FileSystem.Disk

/-! ## Opening a file for writing leaves the other files' bytes -/

variable {d d' : Disk} {i j : Nat}

theorem bytes_store_of_ne (hi : i ≠ j) (b : ByteArray) (now : Nat) :
    (d.store j b now).bytes i = d.bytes i := by
  simp [store, bytes, Array.getD_eq_getD_getElem?, Ne.symm hi]

theorem inodes_makeDirs {p : Place} (h : d.makeDirs p = .ok d') : d'.inodes = d.inodes := by
  unfold makeDirs at h
  split at h
  · cases h
    rfl
  · cases h
  · dsimp only at h
    split at h
    · cases h
    · cases h
      exact inodes_foldl_set_dir _ _ _

theorem inodes_makeDirsAt {t : String} (h : d.makeDirsAt t = .ok d') : d'.inodes = d.inodes := by
  unfold makeDirsAt at h
  split at h
  · cases h
    rfl
  · cases hp : placeOf t with
    | error e => simp [hp, bind, Except.bind] at h
    | ok p =>
      simp only [hp, bind, Except.bind] at h
      exact inodes_makeDirs h

theorem bytes_openWrite {p : Place} {how : Opening} {now : Nat}
    (h : d.openWrite p how now = .ok (j, d')) (hi : i ≠ j) : d'.bytes i = d.bytes i := by
  unfold openWrite at h
  cases hl : d.lookup p with
  | error e => simp [hl, bind, Except.bind] at h
  | ok o =>
    simp only [hl, bind, Except.bind] at h
    rcases o with _ | _ | k
    · simp only [pure, Except.pure, Except.ok.injEq, Prod.mk.injEq] at h
      obtain ⟨rfl, rfl⟩ := h
      rw [bytes_set, bytes_allocate, if_neg (show i ≠ d.inodes.size from hi)]
    · cases h
    · cases how <;> simp only [pure, Except.pure, Except.ok.injEq, Prod.mk.injEq] at h
      · obtain ⟨rfl, rfl⟩ := h
        rfl
      · obtain ⟨rfl, rfl⟩ := h
        exact bytes_store_of_ne hi _ _
      · cases h

end ClaimStore.FileSystem.Disk

namespace ClaimStore.Reading

open ClaimStore.FileSystem

/-! ## One read of a claim's file -/

variable {h : Host} {i : Nat}

theorem read_file (r : Reading) (hn : r.node = .file i) (max : Nat) :
    r.read h max = .ok ((r.reader.read (h.disk.bytes i) (r.limit h) max).1,
      { r with reader := (r.reader.read (h.disk.bytes i) (r.limit h) max).2 }) := by
  unfold read
  dsimp only
  split
  · next hw =>
    simp only [Reader.read, hw, Nat.zero_min, Nat.add_zero, ByteArray.extract_same]
    rfl
  · rw [hn]
    rfl

theorem read_dir (r : Reading) (hn : r.node = .dir) (max : Nat) :
    r.read h max = if r.reader.window (r.limit h) max = 0 then .ok (ByteArray.empty, r)
      else .error .isADirectory := by
  unfold read
  dsimp only
  split
  · rfl
  · rw [hn]; rfl

theorem read_congr {h' : Host} (r : Reading) (hc : h'.cells = h.cells)
    (hb : ∀ i, r.node = .file i → h'.disk.bytes i = h.disk.bytes i) (max : Nat) :
    r.read h' max = r.read h max := by
  have hl : r.limit h' = r.limit h := by
    unfold limit Host.cell
    rw [hc]
  cases hn : r.node with
  | dir => rw [read_dir r hn, read_dir r hn, hl]
  | file i => rw [read_file r hn, read_file r hn, hl, hb i hn]

theorem node_of_read {r r' : Reading} {bs : ByteArray} {max : Nat}
    (hr : r.read h max = .ok (bs, r')) : r'.node = r.node := by
  unfold read at hr
  dsimp only at hr
  split at hr
  · cases hr
    rfl
  · split at hr
    · cases hr
    · cases hr
      rfl

/-! ## Skipping and taking from what a claim yields -/

variable {ρ ρ1 : Reading} {off : Nat} {B : ByteArray} {o l : Nat}

theorem bytes_of_readToEnd (hn : ρ.node = .file i) (hr : ρ.reader = Reader.start off)
    (hB : ρ.readToEnd h = .ok (B, ρ1)) :
    B = ((Reader.start off).read (h.disk.bytes i) (ρ.limit h) (h.disk.bytes i).size).1 := by
  unfold readToEnd at hB
  rw [hn] at hB
  dsimp only at hB
  rw [read_file ρ hn, hr] at hB
  exact (congrArg Prod.fst (Except.ok.inj hB)).symm

theorem limit_of_readToEnd_dir (hn : ρ.node = .dir) (hB : ρ.readToEnd h = .ok (B, ρ1)) :
    ρ.reader.window (ρ.limit h) 1 = 0 ∧ B = ByteArray.empty := by
  unfold readToEnd at hB
  rw [hn] at hB
  dsimp only at hB
  rw [read_dir ρ hn] at hB
  split at hB
  · next hw => exact ⟨hw, (congrArg Prod.fst (Except.ok.inj hB)).symm⟩
  · cases hB

/-- Within what a reading yields to the end, skipping `o` bytes and then taking `l` more reads
exactly the slice `[o, o + l)` of it. -/
theorem skip_take (hr : ρ.reader = Reader.start off) (hB : ρ.readToEnd h = .ok (B, ρ1))
    (hol : o + l ≤ B.size) :
    ∃ ρ', ρ.read h o = .ok (B.extract 0 o, ρ') ∧
      ∃ ρ'', ρ'.read h l = .ok (B.extract o (o + l), ρ'') := by
  cases hn : ρ.node with
  | file i =>
    have hBeq := bytes_of_readToEnd hn hr hB
    rw [hBeq] at hol ⊢
    obtain ⟨hskip, htake⟩ := Reader.skip_take (h.disk.bytes i) (ρ.limit h) off hol
    refine ⟨{ ρ with reader := ⟨off + o, o⟩ }, ?_,
      { ρ with reader := ((⟨off + o, o⟩ : Reader).read (h.disk.bytes i) (ρ.limit h) l).2 }, ?_⟩
    · rw [read_file ρ hn, hr, hskip]
    · rw [read_file { ρ with reader := ⟨off + o, o⟩ } hn l, ← htake]
      rfl
  | dir =>
    obtain ⟨-, rfl⟩ := limit_of_readToEnd_dir hn hB
    have ho : o = 0 := by simp at hol; omega
    have hl : l = 0 := by simp at hol; omega
    subst ho hl
    have hw : ∀ r : Reader, r.window (ρ.limit h) 0 = 0 := by
      intro r
      cases ρ.limit h <;> simp [Reader.window]
    refine ⟨ρ, ?_, ρ, ?_⟩ <;> rw [read_dir ρ hn, if_pos (hw _)] <;> simp

theorem skip_short (hr : ρ.reader = Reader.start off) (hB : ρ.readToEnd h = .ok (B, ρ1))
    (ho : B.size < o) : ∃ bs ρ', ρ.read h o = .ok (bs, ρ') ∧ bs.size < o := by
  cases hn : ρ.node with
  | file i =>
    rw [bytes_of_readToEnd hn hr hB] at ho
    refine ⟨_, _, read_file ρ hn o, ?_⟩
    rw [hr]
    exact Reader.skip_short _ _ off ho
  | dir =>
    -- the limit was reached before any byte, so the skip reads nothing either
    obtain ⟨hw, rfl⟩ := limit_of_readToEnd_dir hn hB
    have hw' : ρ.reader.window (ρ.limit h) o = 0 := by
      cases hl : ρ.limit h <;> simp [hl, Reader.window] at hw ⊢
      omega
    exact ⟨_, _, by rw [read_dir ρ hn, if_pos hw'], by simpa using ho⟩

end ClaimStore.Reading

namespace ClaimStore.Action

open ClaimStore.Claim

/-! ## Actions that only read -/

/-- An action that only reads the store: it leaves every store as it finds it. -/
def ReadOnly {α : Type} (a : Action α) : Prop := ∀ s, a.Preserves (· = s)

namespace ReadOnly

variable {α β : Type}

theorem exec_eq {a : Action α} (h : a.ReadOnly) (s : Store) : a.exec s = ((a.exec s).1, s) :=
  Prod.ext rfl (h s s rfl)

theorem of_snd {a : Action α} (h : ∀ s, (a.exec s).2 = s) : a.ReadOnly :=
  fun _ => Preserves.of_snd h

protected theorem pure (x : α) : (pure x : Action α).ReadOnly := of_snd fun _ => rfl

protected theorem throw (e : StoreError) : (throw e : Action α).ReadOnly := of_snd fun _ => rfl

protected theorem bind {x : Action α} {f : α → Action β} (hx : x.ReadOnly) (hf : ∀ a, (f a).ReadOnly) :
    (x >>= f).ReadOnly :=
  fun s => (hx s).bind fun a => hf a s

end ReadOnly

theorem readOnly_repo : repo.ReadOnly := ReadOnly.of_snd fun _ => rfl

theorem readOnly_host : host.ReadOnly := ReadOnly.of_snd fun _ => rfl

theorem readOnly_ofIo {α : Type} (r : FileSystem.IoResult α) : (ofIo r).ReadOnly := by
  cases r <;> exact ReadOnly.of_snd fun _ => rfl

theorem readOnly_container (name : String) : (container name).ReadOnly :=
  ReadOnly.of_snd fun s => by rw [exec_container]; split <;> rfl

theorem readOnly_openContent (r : Resource) : (openContent r).ReadOnly := by
  unfold openContent
  refine ReadOnly.bind (readOnly_container _) fun box => ReadOnly.bind readOnly_host fun h => ?_
  dsimp only
  split
  · exact .pure _
  · split
    · exact .pure _
    · exact .throw _
    · exact .throw _
  · exact .throw _

theorem readOnly_read (c : ClaimRef) : (read c).ReadOnly := by
  unfold read
  refine ReadOnly.bind (readOnly_openContent _) fun n => ReadOnly.bind readOnly_host fun h => ?_
  dsimp only
  split
  · exact .bind (.throw _) fun _ => .pure _
  · exact .pure _

theorem readOnly_sizeOfResource (r : Resource) : (sizeOfResource r).ReadOnly := by
  unfold sizeOfResource resolvePath
  refine ReadOnly.bind (ReadOnly.bind readOnly_repo fun rp => ?_) fun path? => ?_
  · split
    · exact .pure _
    · exact .bind readOnly_host fun _ => .pure _
  · split
    · exact .bind readOnly_host fun _ => by dsimp only; split <;> first | exact .pure _ | exact .throw _
    · exact .throw _

theorem readOnly_size (c : ClaimRef) : (size c).ReadOnly := by
  unfold size
  refine ReadOnly.bind readOnly_host fun h => ?_
  dsimp only
  split
  · exact .pure _
  · exact .bind (readOnly_sizeOfResource _) fun _ => .pure _

theorem readOnly_exportAll (c : ClaimRef) : (exportAll c).ReadOnly :=
  .bind (readOnly_read c) fun _ => .bind readOnly_host fun _ =>
    .bind (readOnly_ofIo _) fun _ => .pure _

variable {s : Store} {c : ClaimRef} {o l sz : Nat}

/-! ## Opening and exporting a range -/

theorem exec_openRange_of_out (hsize : (size c).exec s = (.ok sz, s))
    (hout : o + l ≥ 2 ^ 64 ∨ o + l > sz) :
    ∃ msg, (openRange c o l).exec s = (.error (.invalidClaim msg), s) := by
  have hcond : (decide (o + l ≥ 2 ^ 64) || decide (o + l > sz)) = true := by simpa using hout
  simp only [openRange, exec_bind, hsize, hcond, ↓reduceIte, exec_host, exec_throw]
  exact ⟨_, rfl⟩

/-- Within the bound, a range is opened by reading the claim and skipping to the range's start;
a skip that falls short means the content is gone. -/
theorem exec_openRange_of_in (hsize : (size c).exec s = (.ok sz, s)) (hin : o + l < 2 ^ 64)
    (hle : o + l ≤ sz) :
    (openRange c o l).exec s = match (read c).exec s with
      | (.error e, s') => (.error e, s')
      | (.ok ρ, s') => match ρ.read s'.host o with
        | .error e => (.error (.io e), s')
        | .ok (bs, ρ') => if bs.size < o then
            (.error (.contentNotFound c.resource ("content ended after " ++ toString bs.size ++
              " bytes while skipping to offset " ++ toString o)), s')
          else (.ok ρ', s') := by
  have hcond : (decide (o + l ≥ 2 ^ 64) || decide (o + l > sz)) = false := by
    simp only [Bool.or_eq_false_iff, decide_eq_false_iff_not]
    omega
  simp only [openRange, exec_bind, hsize, hcond, Bool.false_eq_true, ↓reduceIte]
  rcases (read c).exec s with ⟨_ | ρ, s'⟩
  · rfl
  · simp only [exec_host, exec_ofIo]
    rcases ρ.read s'.host o with _ | ⟨bs, ρ'⟩
    · rfl
    · dsimp only
      split <;> rfl

theorem exec_exportRange : (exportRange c o l).exec s = match (openRange c o l).exec s with
    | (.error e, s') => (.error e, s')
    | (.ok ρ, s') => match ρ.read s'.host l with
      | .error e => (.error (.io e), s')
      | .ok (bs, _) => (.ok bs, s') := by
  simp only [exportRange, take, exec_bind]
  rcases (openRange c o l).exec s with ⟨_ | ρ, s'⟩
  · rfl
  · simp only [exec_host, exec_ofIo]
    rcases ρ.read s'.host l with _ | ⟨bs, ρ'⟩ <;> rfl

theorem exec_exportRangeToPath (dest : String) (append : Bool) :
    (exportRangeToPath c dest append o l).exec s = match (openRange c o l).exec s with
    | (.error e, s') => (.error e, s')
    | (.ok ρ, s') => match (openDestination dest append).exec s' with
      | (.error e, s'') => (.error e, s'')
      | (.ok j, s'') => match ρ.read s''.host l with
        | .error e => (.error (.io e), s'')
        | .ok (bs, _) => (.ok bs.size, ((emit j bs).exec s'').2) := by
  simp only [exportRangeToPath, take, exec_bind]
  rcases (openRange c o l).exec s with ⟨_ | ρ, s'⟩
  · rfl
  · dsimp only
    rcases (openDestination dest append).exec s' with ⟨_ | j, s''⟩
    · rfl
    · simp only [exec_host, exec_ofIo]
      rcases ρ.read s''.host l with _ | ⟨bs, ρ'⟩ <;> rfl

/-! ## How reading a claim fails -/

/-- Looking up a claim's content fails only for an unknown container, for content in neither
place, or on a file operation. -/
theorem openContent_error {r : Resource} {e : StoreError} {s' : Store}
    (h : (openContent r).exec s = (.error e, s')) :
    (∃ m, e = .contentNotFound r m) ∨ (∃ ioe, e = .io ioe) ∨ e = .unknownContainer r.container := by
  unfold openContent at h
  simp only [exec_bind, exec_container] at h
  cases hbox : s.repo.container? r.container with
  | none =>
    simp only [hbox, Prod.mk.injEq, Except.error.injEq] at h
    exact .inr (.inr h.1.symm)
  | some box =>
    simp only [hbox, exec_host] at h
    split at h
    · cases h
    · split at h
      · cases h
      · cases h
        exact .inl ⟨_, rfl⟩
      · cases h
        exact .inr (.inl ⟨_, rfl⟩)
    · cases h
      exact .inr (.inl ⟨_, rfl⟩)

theorem read_error {e : StoreError} {s' : Store} (h : (read c).exec s = (.error e, s')) :
    (∃ m, e = .contentNotFound c.resource m) ∨ (∃ ioe, e = .io ioe) ∨
      e = .unknownContainer c.resource.container := by
  unfold read at h
  rw [exec_bind] at h
  rcases ho : (openContent c.resource).exec s with ⟨_ | n, s1⟩
  · rw [ho] at h
    cases h
    exact openContent_error ho
  · rw [ho] at h
    simp only [exec_bind, exec_host] at h
    split at h
    · simp only [exec_bind, exec_throw] at h
      cases h
      exact .inl ⟨_, rfl⟩
    · cases h

theorem read_reader {ρ : Reading} {s' : Store} (h : (read c).exec s = (.ok ρ, s')) :
    ρ.reader = Reader.start c.offset := by
  unfold read at h
  rw [exec_bind] at h
  rcases ho : (openContent c.resource).exec s with ⟨_ | n, s1⟩
  · rw [ho] at h
    cases h
  · rw [ho] at h
    simp only [exec_bind, exec_host] at h
    split at h
    · simp at h
    · cases h
      rfl

theorem exportAll_ok {B : ByteArray} {s' : Store} (h : (exportAll c).exec s = (.ok B, s')) :
    ∃ ρ ρ1, (read c).exec s = (.ok ρ, s) ∧ ρ.readToEnd s.host = .ok (B, ρ1) := by
  unfold exportAll drain at h
  rw [exec_bind, (readOnly_read c).exec_eq] at h
  rcases hr : ((read c).exec s).1 with _ | ρ
  · rw [hr] at h
    cases h
  · rw [hr] at h
    simp only [exec_bind, exec_host, exec_ofIo] at h
    rcases hend : ρ.readToEnd s.host with _ | ⟨bs, ρ1⟩
    · rw [hend] at h
      cases h
    · rw [hend] at h
      simp only [exec_pure, Prod.mk.injEq, Except.ok.injEq] at h
      exact ⟨ρ, ρ1, by rw [(readOnly_read c).exec_eq, hr], by rw [hend, h.1]⟩

/-! ## Opening a destination -/

theorem exec_onDisk (f : FileSystem.Disk → FileSystem.IoResult FileSystem.Disk) : (onDisk f).exec s =
    match f s.host.disk with
    | .ok d => (.ok (), { s with host := { s.host with disk := d } })
    | .error e => (.error (.io e), s) := by
  simp only [onDisk, exec_bind, exec_host, exec_ofIo]
  cases f s.host.disk <;> rfl

/-- Opening a destination changes only the disk, and of the files' bytes only those of the file it
opens; it fails only on a file operation. -/
theorem openDestination_cases (dest : String) (append : Bool) :
    (∀ e s', (openDestination dest append).exec s = (.error e, s') → ∃ ioe, e = .io ioe) ∧
    ∀ j s', (openDestination dest append).exec s = (.ok j, s') →
      s'.host.cells = s.host.cells ∧ ∀ i, i ≠ j → s'.host.disk.bytes i = s.host.disk.bytes i := by
  have hopen : ∀ s1 : Store, s1.host.cells = s.host.cells →
      (∀ i, s1.host.disk.bytes i = s.host.disk.bytes i) →
      (∀ e s', (do
          let h ← host
          let p ← ofIo (FileSystem.Disk.placeOf dest)
          let o ← ofIo (h.disk.openWrite p (if append then .append else .truncate) h.now)
          modifyHost fun h => { h with disk := o.2 }
          pure o.1 : Action Nat).exec s1 = (.error e, s') → ∃ ioe, e = .io ioe) ∧
      ∀ j s', (do
          let h ← host
          let p ← ofIo (FileSystem.Disk.placeOf dest)
          let o ← ofIo (h.disk.openWrite p (if append then .append else .truncate) h.now)
          modifyHost fun h => { h with disk := o.2 }
          pure o.1 : Action Nat).exec s1 = (.ok j, s') →
        s'.host.cells = s.host.cells ∧ ∀ i, i ≠ j → s'.host.disk.bytes i = s.host.disk.bytes i := by
    intro s1 hc hb
    simp only [exec_bind, exec_host, exec_ofIo]
    cases FileSystem.Disk.placeOf dest with
    | error e => exact ⟨fun e' s' h => (by cases h; exact ⟨e, rfl⟩), fun j s' h => (by cases h)⟩
    | ok p =>
      dsimp only
      cases hw : s1.host.disk.openWrite p (if append then .append else .truncate) s1.host.now with
      | error e => exact ⟨fun e' s' h => (by cases h; exact ⟨e, rfl⟩), fun j s' h => (by cases h)⟩
      | ok x =>
        obtain ⟨i, d⟩ := x
        refine ⟨fun e' s' h => (by cases h), fun j s' h => ?_⟩
        simp only [exec_modifyHost, exec_pure, Prod.mk.injEq, Except.ok.injEq] at h
        obtain ⟨rfl, rfl⟩ := h
        exact ⟨hc, fun k hk => (FileSystem.Disk.bytes_openWrite hw hk).trans (hb k)⟩
  unfold openDestination
  rcases Path.parent? dest with _ | dir
  · exact hopen s rfl fun _ => rfl
  · dsimp only
    split
    · exact hopen s rfl fun _ => rfl
    · rw [exec_bind, exec_onDisk]
      cases hm : s.host.disk.makeDirsAt dir with
      | error e => exact ⟨fun e' s' h => (by cases h; exact ⟨e, rfl⟩), fun j s' h => (by cases h)⟩
      | ok d =>
        exact hopen _ rfl fun i => by
          simp only [FileSystem.Disk.bytes, FileSystem.Disk.inodes_makeDirsAt hm]

theorem openContent_of_read {ρ : Reading} {s' : Store} (h : (read c).exec s = (.ok ρ, s')) :
    (openContent c.resource).exec s = (.ok ρ.node, s) := by
  unfold read at h
  rw [exec_bind] at h
  rcases ho : (openContent c.resource).exec s with ⟨_ | n, s1⟩
  · rw [ho] at h
    cases h
  · rw [ho] at h
    have hs1 : s1 = s := by
      have := (readOnly_openContent c.resource).exec_eq s
      rw [ho] at this
      exact (Prod.ext_iff.1 this).2
    subst hs1
    simp only [exec_bind, exec_host] at h
    split at h
    · simp at h
    · cases h
      rfl

/-! ## Within the bound -/

/-- Within the bound, opening a range fails only as reading the claim does, or on the skip. -/
theorem openRange_error_of_in (hsize : (size c).exec s = (.ok sz, s)) (hin : o + l < 2 ^ 64)
    (hle : o + l ≤ sz) {e : StoreError} {s' : Store} (h : (openRange c o l).exec s = (.error e, s')) :
    (∃ m, e = .contentNotFound c.resource m) ∨ (∃ ioe, e = .io ioe) ∨
      e = .unknownContainer c.resource.container := by
  rw [exec_openRange_of_in hsize hin hle] at h
  rcases hr : (read c).exec s with ⟨_ | ρ, s1⟩
  · rw [hr] at h
    cases h
    exact read_error hr
  · rw [hr] at h
    dsimp only at h
    rcases hread : ρ.read s1.host o with ioe | ⟨bs, ρ'⟩
    · rw [hread] at h
      cases h
      exact .inr (.inl ⟨_, rfl⟩)
    · rw [hread] at h
      dsimp only at h
      split at h
      · cases h
        exact .inl ⟨_, rfl⟩
      · cases h

/-- Within the bound, neither export of a range is refused as an invalid claim. -/
theorem export_ranges_not_invalid (hsize : (size c).exec s = (.ok sz, s)) (hin : o + l < 2 ^ 64)
    (hle : o + l ≤ sz) (dest : String) (append : Bool) (msg : String) :
    ((exportRange c o l).exec s).1 ≠ .error (.invalidClaim msg) ∧
      ((exportRangeToPath c dest append o l).exec s).1 ≠ .error (.invalidClaim msg) := by
  -- an error of opening the range is not a refusal; every later error is a file operation's
  have hopen : ∀ s', (openRange c o l).exec s ≠ (.error (.invalidClaim msg), s') := fun s' h => by
    rcases openRange_error_of_in hsize hin hle h with ⟨m, hm⟩ | ⟨ioe, hio⟩ | hu
    · cases hm
    · cases hio
    · cases hu
  rw [exec_exportRange, exec_exportRangeToPath]
  rcases ho : (openRange c o l).exec s with ⟨_ | ρ, s1⟩
  · exact ⟨fun h => hopen s1 (by rw [ho]; cases h; rfl),
      fun h => hopen s1 (by rw [ho]; cases h; rfl)⟩
  · refine ⟨?_, ?_⟩
    · dsimp only
      cases ρ.read s1.host l <;> simp
    · dsimp only
      rcases hd : (openDestination dest append).exec s1 with ⟨_ | j, s2⟩
      · obtain ⟨ioe, rfl⟩ := (openDestination_cases (s := s1) dest append).1 _ _ hd
        simp
      · dsimp only
        cases ρ.read s2.host l <;> simp

end ClaimStore.Action

namespace ClaimStore

open ClaimStore.Claim

/-- An export of the range `[o, o + l)` of a claim checks the range against the claim's size
first: it is refused as an invalid claim, with nothing read or written, exactly when the range
passes the size or the largest word. Within the bound it fails as reading the claim fails, and
with `contentNotFound` and nothing written when what the claim yields ends before the range
starts. When what the claim yields holds the whole range, the export is exactly its slice
`[o, o + l)`, `l` bytes; into a file it writes that slice to the destination it opened, or fails
with the file operation that could not open it. -/
theorem range_export_is_exact_slice (s : Store) (c : ClaimRef) (o l : Nat) (dest : String)
    (append : Bool) :
    (∀ sz, (Action.size c).exec s = (.ok sz, s) →
      ((o + l ≥ 2 ^ 64 ∨ o + l > sz) ↔
        ∃ msg, (Action.exportRange c o l).exec s = (.error (.invalidClaim msg), s)) ∧
      ((o + l ≥ 2 ^ 64 ∨ o + l > sz) ↔
        ∃ msg, (Action.exportRangeToPath c dest append o l).exec s =
          (.error (.invalidClaim msg), s))) ∧
    ∀ sz, (Action.size c).exec s = (.ok sz, s) → o + l < 2 ^ 64 → o + l ≤ sz →
      (∀ e, (Action.read c).exec s = (.error e, s) →
        (Action.exportRange c o l).exec s = (.error e, s) ∧
        (Action.exportRangeToPath c dest append o l).exec s = (.error e, s)) ∧
      ∀ B, (Action.exportAll c).exec s = (.ok B, s) →
        (B.size < o → ∃ msg,
          (Action.exportRange c o l).exec s = (.error (.contentNotFound c.resource msg), s) ∧
          (Action.exportRangeToPath c dest append o l).exec s =
            (.error (.contentNotFound c.resource msg), s)) ∧
        (o + l ≤ B.size →
          (Action.exportRange c o l).exec s = (.ok (B.extract o (o + l)), s) ∧
          (B.extract o (o + l)).size = l ∧
          ∀ r s1, (Action.openDestination dest append).exec s = (r, s1) →
            (∀ e, r = .error e → (∃ ioe, e = .io ioe) ∧
              (Action.exportRangeToPath c dest append o l).exec s = (.error e, s1)) ∧
            ∀ j, r = .ok j → (Action.openContent c.resource).exec s ≠ (.ok (.file j), s) →
              (Action.exportRangeToPath c dest append o l).exec s =
                (.ok l, ((Action.emit j (B.extract o (o + l))).exec s1).2)) := by
  refine ⟨fun sz hsize => ⟨⟨fun hout => ?_, fun ⟨msg, h⟩ => ?_⟩, ⟨fun hout => ?_, fun ⟨msg, h⟩ => ?_⟩⟩,
    fun sz hsize hin hle => ⟨fun e he => ?_, fun B hB => ?_⟩⟩
  -- the bound alone decides a refusal
  · obtain ⟨msg, hmsg⟩ := Action.exec_openRange_of_out hsize hout
    exact ⟨msg, by rw [Action.exec_exportRange, hmsg]⟩
  · refine Classical.byContradiction fun hin => ?_
    exact (Action.export_ranges_not_invalid hsize (by omega) (by omega) dest append msg).1
      (congrArg Prod.fst h)
  · obtain ⟨msg, hmsg⟩ := Action.exec_openRange_of_out hsize hout
    exact ⟨msg, by rw [Action.exec_exportRangeToPath, hmsg]⟩
  · refine Classical.byContradiction fun hin => ?_
    exact (Action.export_ranges_not_invalid hsize (by omega) (by omega) dest append msg).2
      (congrArg Prod.fst h)
  · have hopen : (Action.openRange c o l).exec s = (.error e, s) := by
      rw [Action.exec_openRange_of_in hsize hin hle, he]
    exact ⟨by rw [Action.exec_exportRange, hopen], by rw [Action.exec_exportRangeToPath, hopen]⟩
  obtain ⟨ρ, ρ1, hread, hend⟩ := Action.exportAll_ok hB
  have hr := Action.read_reader hread
  refine ⟨fun hshort => ?_, fun hol => ?_⟩
  · obtain ⟨bs, ρ', hskip, hlt⟩ := Reading.skip_short hr hend hshort
    have hopen : (Action.openRange c o l).exec s = (.error (.contentNotFound c.resource
        ("content ended after " ++ toString bs.size ++ " bytes while skipping to offset " ++
          toString o)), s) := by
      rw [Action.exec_openRange_of_in hsize hin hle, hread]
      simp only [hskip, hlt, ↓reduceIte]
    exact ⟨_, by rw [Action.exec_exportRange, hopen], by rw [Action.exec_exportRangeToPath, hopen]⟩
  obtain ⟨ρ', hskip, ρ'', htake⟩ := Reading.skip_take hr hend hol
  have hskipped : ¬ (B.extract 0 o).size < o := by
    rw [ByteArray.size_extract]
    omega
  have hopen : (Action.openRange c o l).exec s = (.ok ρ', s) := by
    rw [Action.exec_openRange_of_in hsize hin hle, hread]
    simp only [hskip, hskipped, ↓reduceIte]
  have hsize' : (B.extract o (o + l)).size = l := by
    rw [ByteArray.size_extract]
    omega
  refine ⟨by rw [Action.exec_exportRange, hopen]; simp only [htake], hsize', fun r s1 hd => ?_⟩
  obtain ⟨herr, hok⟩ := Action.openDestination_cases (s := s) dest append
  refine ⟨fun e he => ?_, fun j hj hne => ?_⟩
  · subst he
    exact ⟨herr _ _ hd, by rw [Action.exec_exportRangeToPath, hopen]; simp only [hd]⟩
  · subst hj
    obtain ⟨hcells, hbytes⟩ := hok _ _ hd
    -- the take reads the same bytes after the destination was opened: it is another file
    have htake' : ρ'.read s1.host l = .ok (B.extract o (o + l), ρ'') := by
      rw [Reading.read_congr ρ' hcells (fun i hi => hbytes i fun hij => hne ?_), htake]
      rw [Action.openContent_of_read hread, ← Reading.node_of_read hskip, hi, hij]
    rw [Action.exec_exportRangeToPath, hopen]
    simp only [hd, htake', hsize']

/-- The first claim of `abcPooled`, written with three bytes and closed. -/
def abcClaim : ClaimRef := ⟨firstResource, 0, 0⟩

/-- The middle two bytes of `abcClaim`, exported as a range. -/
theorem abc_range_exports_middle :
    (Action.exportRange abcClaim 1 2).exec abcPooled.store = (.ok ⟨#[98, 99]⟩, abcPooled.store) := by
  have hsize : (Action.size abcClaim).exec abcPooled.store = (.ok 3, abcPooled.store) :=
    Prod.ext (by decide +kernel) ((Action.readOnly_size abcClaim).exec_eq _ ▸ rfl)
  have hall : (Action.exportAll abcClaim).exec abcPooled.store =
      (.ok ⟨#[97, 98, 99]⟩, abcPooled.store) :=
    Prod.ext (by decide +kernel) ((Action.readOnly_exportAll abcClaim).exec_eq _ ▸ rfl)
  have h := (((range_export_is_exact_slice abcPooled.store abcClaim 1 2 "c" false).2 3 hsize
    (by decide) (by decide)).2 _ hall).2 (by decide)
  exact h.1

/-- `abcPooled`'s store with one more length cell, telling ten bytes. -/
def tenCellStore : Store :=
  { abcPooled.store with host := { abcPooled.store.host with
      cells := abcPooled.store.host.cells.push 10 } }

/-- A claim of `abcPooled`'s three-byte file whose length cell tells ten bytes. -/
def overlongClaim : ClaimRef := ⟨firstResource, 0, 1⟩

/-- A range export may return fewer bytes than asked for, when the claim's recorded length
passes its stored bytes; and an export into a directory fails on opening it. -/
theorem range_export_short_or_io :
    ((Action.size overlongClaim).exec tenCellStore).1 = .ok 10 ∧
      ((Action.exportRange overlongClaim 0 5).exec tenCellStore).1 = .ok ⟨#[97, 98, 99]⟩ ∧
      ((Action.exportRangeToPath abcClaim "c" false 1 2).exec abcPooled.store).1 =
        .error (.io .isADirectory) := by
  decide +kernel

end ClaimStore
