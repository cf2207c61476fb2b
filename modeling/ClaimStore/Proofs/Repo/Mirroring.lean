import ClaimStore.Proofs.Repo.Pumping
import ClaimStore.Proofs.Repo.Registering
import ClaimStore.Proofs.Repo.Cloning
import ClaimStore.Proofs.Repo.Ranges
/-!
# A finished clone reads as its original

A clone's copy reads the original chunk by chunk and appends each chunk to the new claim's file
right after reading it. So the bytes that file has gained since the copy began are the bytes
the reading has passed (`Reading.Mirrors`), whether the copy reads another file or the very
file it appends to: a chunk of its own file is read before it is appended, so it lies behind
the end it is appended at.

When the clone returns the new claim, its copy stopped where a read of the original stops
afterwards: at the original's length, or at the end of the original's file. Reading the new
claim then yields exactly what reading the original yields, as long as that fits the signed
64-bit length the new claim records (`clone_reads_as_original`).
-/

set_option autoImplicit false

namespace ClaimStore

open ClaimStore.Claim ClaimStore.FileSystem

theorem extract_append_from {a b : ByteArray} {o : Nat} (h : o ≤ a.size) :
    (a ++ b).extract o (a.size + b.size) = a.extract o a.size ++ b := by
  have := extract_append_of_end (b := b) (show o + (a.size - o) = a.size by omega)
  rwa [show o + (a.size - o + b.size) = a.size + b.size by omega,
    show o + (a.size - o) = a.size by omega] at this

/-! ## Reading a file from a claim's offset -/

namespace Reading

theorem readToEnd_start (h : Host) (f o cell : Nat) :
    ∃ r, (⟨.file f, Reader.start o, cell⟩ : Reading).readToEnd h =
      .ok ((h.disk.bytes f).extract o (o + min ((Reader.start o).window
        ((⟨.file f, Reader.start o, cell⟩ : Reading).limit h) (h.disk.bytes f).size)
        ((h.disk.bytes f).size - o)), r) := by
  unfold readToEnd read
  simp only [Reader.read]
  by_cases h0 : (Reader.start o).window
      ((⟨.file f, Reader.start o, cell⟩ : Reading).limit h) (h.disk.bytes f).size = 0
  · rw [if_pos h0, h0, Nat.zero_min, Nat.add_zero, ByteArray.extract_same]
    exact ⟨_, rfl⟩
  · rw [if_neg h0]
    exact ⟨_, rfl⟩

end Reading

/-! ## The bytes a copy appends -/

namespace Reading

variable {r : Reading} {w : Writer} {h : Host} {f i o S : Nat}

/-- The bytes file `i` has gained since it held `S` of them are the bytes the reading has passed
in file `f` since position `o`. -/
structure Mirrors (r : Reading) (h : Host) (f i o S : Nat) : Prop where
  origin_le : o ≤ r.reader.position
  within : r.reader.position ≤ (h.disk.bytes f).size
  start_le : S ≤ (h.disk.bytes i).size
  same : (h.disk.bytes f).extract o r.reader.position =
    (h.disk.bytes i).extract S (h.disk.bytes i).size

theorem Mirrors.start (hr : r.reader = Reader.start o) (hfit : o ≤ (h.disk.bytes f).size) (i : Nat) :
    r.Mirrors h f i o (h.disk.bytes i).size where
  origin_le := by rw [hr]; exact Nat.le_refl o
  within := by rw [hr]; exact hfit
  start_le := Nat.le_refl _
  same := by simp only [hr, Reader.start, ByteArray.extract_same]

@[simp] theorem position_skip (n : Nat) : (r.skip n).reader.position = r.reader.position + n := rfl

theorem skip_skip (m n : Nat) : (r.skip m).skip n = r.skip (m + n) := by
  simp only [skip, Nat.add_assoc]

theorem skip_zero : r.skip 0 = r := rfl

/-- One chunk of a copy keeps the file it appends to mirroring the reading: the chunk is taken
from where the reading stands, within the bytes it had, and appended at the end. -/
theorem Mirrors.chunk (hC : Copying r w h) (hf : r.node = .file f)
    (hM : r.Mirrors h f (h.stream w.stream).inode o S) :
    (r.skip (r.chunk h f).size).Mirrors (w.write h (r.chunk h f)).2.2 f
      (h.stream w.stream).inode o S := by
  have hbytes := Writer.bytes_write (r.chunk h f) hC.finished hC.streamOpen hC.inode
  have hn := size_chunk hf (h := h)
  -- a chunk takes no more than what stands ahead, which lies within the file
  have hfit : r.reader.position + (r.chunk h f).size ≤ (h.disk.bytes f).size := by
    have hc := window_chunk r h
    rw [hf, Disk.sizeOf] at hc
    have := hM.within
    omega
  have hpassed : (h.disk.bytes f).extract o (r.reader.position + (r.chunk h f).size) =
      (h.disk.bytes (h.stream w.stream).inode).extract S
        (h.disk.bytes (h.stream w.stream).inode).size ++ r.chunk h f := by
    rw [ByteArray.extract_eq_extract_append_extract r.reader.position hM.origin_le
      (Nat.le_add_right _ _), hM.same, hn]
    rfl
  have happ : ((w.write h (r.chunk h f)).2.2.disk.bytes (h.stream w.stream).inode).extract S
      ((w.write h (r.chunk h f)).2.2.disk.bytes (h.stream w.stream).inode).size =
      (h.disk.bytes (h.stream w.stream).inode).extract S
        (h.disk.bytes (h.stream w.stream).inode).size ++ r.chunk h f := by
    rw [hbytes, if_pos rfl, ByteArray.size_append]
    exact extract_append_from hM.start_le
  refine ⟨by simp only [position_skip]; exact Nat.le_trans hM.origin_le (Nat.le_add_right _ _),
    ?_, ?_, ?_⟩
  · rw [position_skip, hbytes]
    split
    · rw [ByteArray.size_append]
      omega
    · exact hfit
  · rw [hbytes, if_pos rfl, ByteArray.size_append]
    exact Nat.le_trans hM.start_le (Nat.le_add_right _ _)
  · rw [position_skip, happ, ← hpassed, hbytes]
    split
    · exact extract_append_of_le hfit
    · rfl

end Reading

/-- From `s` to `s'` only file `i` grew, by `n` bytes, and only the cell `cell` changed: the
repository and every place stay. -/
structure Store.Appends (s s' : Store) (i n cell : Nat) : Prop where
  repo : s'.repo = s.repo
  node : ∀ q, s'.host.disk.node? q = s.host.disk.node? q
  size : (s'.host.disk.bytes i).size = (s.host.disk.bytes i).size + n
  bytes : ∀ j, j ≠ i → s'.host.disk.bytes j = s.host.disk.bytes j
  cells : ∀ c, c ≠ cell → s'.host.cell c = s.host.cell c

namespace Store.Appends

variable {s s' s'' : Store} {i n m cell : Nat}

theorem refl (s : Store) (i cell : Nat) : Appends s s i 0 cell :=
  ⟨rfl, fun _ => rfl, rfl, fun _ _ => rfl, fun _ _ => rfl⟩

theorem trans (h : Appends s s' i n cell) (h' : Appends s' s'' i m cell) :
    Appends s s'' i (n + m) cell where
  repo := h'.repo.trans h.repo
  node q := (h'.node q).trans (h.node q)
  size := by rw [h'.size, h.size, Nat.add_assoc]
  bytes j hj := (h'.bytes j hj).trans (h.bytes j hj)
  cells c hc := (h'.cells c hc).trans (h.cells c hc)

theorem write {w : Writer} (hw : w.finished = false) (hn : (s.host.stream w.stream).closed = false)
    (hi : (s.host.stream w.stream).inode < s.host.disk.inodes.size) (hc : w.claim.cell < s.host.cells.size)
    (bytes : ByteArray) :
    Appends s { s with host := (w.write s.host bytes).2.2 } (s.host.stream w.stream).inode
      bytes.size w.claim.cell where
  repo := rfl
  node := Writer.node?_write bytes hw hn
  size := by rw [Writer.bytes_write bytes hw hn hi, if_pos rfl, ByteArray.size_append]
  bytes j hj := by rw [Writer.bytes_write bytes hw hn hi, if_neg hj]
  cells c hcell := by simp only [Writer.cell_write bytes hw hn hc, if_neg hcell]

end Store.Appends

namespace Action

open Reading

variable {r : Reading} {w : Writer} {s : Store} {f o S : Nat}

/-- A copy from a file, however it ends, leaves the stream's file mirroring the reading over
the bytes it moved, and changes nothing else but the writer's cell. -/
theorem exec_pump_mirrors (hC : Copying r w s.host) (hf : r.node = .file f)
    (hM : r.Mirrors s.host f (s.host.stream w.stream).inode o S) (m fuel : Nat) :
    ∃ n w', ((pump r w m fuel).exec s).1 = .ok (.ok (m + n), w') ∧
      (r.skip n).Mirrors ((pump r w m fuel).exec s).2.host f (s.host.stream w.stream).inode o S ∧
      s.Appends ((pump r w m fuel).exec s).2 (s.host.stream w.stream).inode n w.claim.cell := by
  -- induction on the fuel, one chunk at a time
  induction fuel generalizing r w s m with
  | zero => exact ⟨0, w, rfl, hM, Store.Appends.refl _ _ _⟩
  | succ fuel ih =>
    by_cases h0 : r.standing s.host = 0
    · rw [exec_pump_stop hf h0]
      exact ⟨0, w, rfl, hM, Store.Appends.refl _ _ _⟩
    have hstep := Store.Appends.write hC.finished hC.streamOpen hC.inode hC.cell (r.chunk s.host f)
    have hino := inode_write hC (r.chunk s.host f)
    have hwc : (w.write s.host (r.chunk s.host f)).2.1.claim = w.claim := by
      rw [Writer.write_writer _ hC.finished hC.streamOpen]
    obtain ⟨n, w', hres, hM', happ⟩ := ih (s := { s with host := _ }) (hC.write _ _) hf
      (hino.symm ▸ hM.chunk hC hf) (m + (r.chunk s.host f).size)
    rw [exec_pump_chunk hC hf (Nat.pos_of_ne_zero h0)]
    rw [hino, hwc] at happ
    rw [hino, skip_skip] at hM'
    exact ⟨(r.chunk s.host f).size + n, w', by rw [hres, Nat.add_assoc], hM', hstep.trans happ⟩

end Action

/-! ## Reading again after a copy

A read of a claim sees the containers, what the places hold, the bytes of the file it finds and
the claim's length cell. The copy changes only the bytes of the new claim's file and the new
claim's cell, and its close hook none of these, so the original is read again as it was left. -/

namespace FileSystem.Disk

variable {d d' : Disk}

theorem lookup_congr (h : ∀ q, d'.node? q = d.node? q) (p : Place) : d'.lookup p = d.lookup p := by
  simp only [lookup, reach, h]

theorem openRead_congr (h : ∀ q, d'.node? q = d.node? q) (p : Place) :
    d'.openRead p = d.openRead p := by
  simp only [openRead, lookup_congr h]

end FileSystem.Disk

namespace Store

variable {s s' : Store}

theorem live?_congr (hc : s'.repo.containers = s.repo.containers)
    (hd : ∀ q, s'.host.disk.node? q = s.host.disk.node? q) (k : ClaimKey) :
    s'.live? k = s.live? k := by
  simp only [live?, Repo.livePlace?, Repo.container?, hc, funext hd]

end Store

namespace Action

variable {s s' : Store}

theorem exec_openContent_congr (hc : s'.repo.containers = s.repo.containers)
    (hd : ∀ q, s'.host.disk.node? q = s.host.disk.node? q) (r : Resource) :
    (openContent r).exec s' = (((openContent r).exec s).1, s') := by
  have hbox : s'.repo.container? r.container = s.repo.container? r.container := by
    simp only [Repo.container?, hc]
  unfold openContent
  simp only [exec_bind, exec_container, hbox, exec_host]
  cases s.repo.container? r.container with
  | none => rfl
  | some box =>
    simp only [FileSystem.Disk.openRead_congr hd]
    split <;> (try split) <;> rfl

theorem exec_openContent_of_live {r : Resource} {i : Nat} (hs : s.host.disk.Sound) (hr : r.Plain)
    (hl : s.live? r.key = some (.file i)) : (openContent r).exec s = (.ok (.file i), s) := by
  obtain ⟨q, hq, hnode⟩ := Option.bind_eq_some_iff.1 hl
  obtain ⟨box, p, hbox, hp, rfl⟩ := Repo.livePlace?_eq_some.1 hq
  exact exec_openContent hbox hp hr hs (.inl hnode)

theorem completeWrite_reads {c : Resource} {n : Nat} (hn : (s.host.stream n).closed = false)
    (hsn : s.repo.streamOf? c = some n) (failed : Bool) :
    ((completeWrite c n failed).exec s).2.repo.containers = s.repo.containers ∧
      ((completeWrite c n failed).exec s).2.host.disk = s.host.disk ∧
      ((completeWrite c n failed).exec s).2.host.cells = s.host.cells := by
  by_cases hp : Pools s c n failed
  · rw [exec_completeWrite_of_pools s c hn hp]
    exact ⟨rfl, rfl, rfl⟩
  · rw [exec_completeWrite_of_not_pools s c hn hsn hp]
    exact ⟨rfl, rfl, rfl⟩

theorem exec_pump_dir {r : Reading} {w : Writer} (hd : r.node = .dir) (m fuel : Nat) :
    (pump r w m (fuel + 1)).exec s =
      if r.reader.window (r.limit s.host) copyChunk = 0 then (.ok (.ok m, w), s)
      else (.ok (.error .isADirectory, w), s) := by
  by_cases hw : r.reader.window (r.limit s.host) copyChunk = 0
  · simp [pump, exec_bind, exec_host, Reading.read_dir r hd, hw, ByteArray.isEmpty]
  · simp [pump, exec_bind, exec_host, Reading.read_dir r hd, hw]

theorem exec_read_at {c : ClaimRef} {n : Node} (hopen : (openContent c.resource).exec s = (.ok n, s))
    (hoff : c.offset ≤ s.host.disk.sizeOf n) :
    (read c).exec s = (.ok ⟨n, Reader.start c.offset, c.cell⟩, s) := by
  simp [read, exec_bind, hopen, Nat.not_lt.2 hoff]

theorem exec_read_of_ok {c : ClaimRef} {ρ : Reading} (h : (read c).exec s = (.ok ρ, s')) :
    s' = s ∧ (openContent c.resource).exec s = (.ok ρ.node, s) ∧
      ρ.reader = Reader.start c.offset ∧ ρ.cell = c.cell ∧ c.offset ≤ s.host.disk.sizeOf ρ.node := by
  have hs := (readOnly_read c).exec_eq s
  rw [h, Prod.mk.injEq] at hs
  obtain ⟨-, rfl⟩ := hs
  have hopen := openContent_of_read h
  refine ⟨rfl, hopen, ?_⟩
  simp only [read, exec_bind, hopen, exec_host] at h
  split at h
  · simp at h
  · next hoff =>
    simp only [exec_pure, Prod.mk.injEq, Except.ok.injEq] at h
    rw [← h.1]
    exact ⟨rfl, rfl, Nat.le_of_not_lt hoff⟩

end Action

namespace Reading

variable {h : Host} {cell off i n : Nat}

theorem readToEnd_of_signed64 (hc : h.cell cell = signed64 n) (hn : n < 2 ^ 64)
    (hend : off + n = (h.disk.bytes i).size) :
    ∃ r, (⟨.file i, Reader.start off, cell⟩ : Reading).readToEnd h =
      .ok ((h.disk.bytes i).extract off (off + n), r) := by
  by_cases hsmall : n < 2 ^ 63
  · exact readToEnd_of_length (hc.trans (signed64_of_lt hsmall)) (Nat.le_of_eq hend)
  · rw [hend]
    refine readToEnd_of_unknown ?_ (by omega)
    rw [hc, signed64, if_neg hsmall]
    omega

variable {r : Reading} {w : Writer} {f o : Nat}

/-- A copy that does not feed itself stops where a read of the original from its offset stops
afterwards: the file it read has grown by what it moved exactly when it appended there. -/
theorem window_copied (hC : Copying r w h) (hf : r.node = .file f) (hr : r.reader = Reader.start o)
    (ho : o ≤ (h.disk.bytes f).size) (hnf : r.feeds h w.stream = false) {size' : Nat}
    (hsize : size' = (h.disk.bytes f).size +
      if f = (h.stream w.stream).inode then r.copied h w.stream else 0) :
    min ((Reader.start o).window (r.limit h) size') (size' - o) = r.copied h w.stream := by
  have hnot : r.limit h = none → f ≠ (h.stream w.stream).inode ∨ r.ahead h = 0 := by
    intro hl
    by_cases hg : f = (h.stream w.stream).inode
    · refine .inr (Nat.eq_zero_of_not_pos fun hpos => ?_)
      rw [(feeds_eq_true hC).2 ⟨hl, hf.trans (congrArg _ hg), hpos⟩] at hnf
      cases hnf
    · exact .inl hg
  have hahead : r.ahead h = (h.disk.bytes f).size - o := by
    rw [ahead, hf, Disk.sizeOf, hr]
    rfl
  have hstand : r.standing h = (Reader.start o).window (r.limit h) ((h.disk.bytes f).size - o) := by
    rw [standing, hahead, hr]
  rcases hl : r.limit h with _ | l
  · have hcopied : r.copied h w.stream = (h.disk.bytes f).size - o := by
      unfold copied
      rw [hstand, hahead, hl]
      simp [Reader.window]
    rw [hcopied] at hsize ⊢
    have h0 := hnot hl
    rw [hahead] at h0
    simp only [Reader.window]
    split at hsize <;> omega
  · have hcopied : r.copied h w.stream =
        if f = (h.stream w.stream).inode ∧ 0 < (h.disk.bytes f).size - o then l
        else min ((h.disk.bytes f).size - o) l := by
      unfold copied
      rw [hstand, hahead, hf, hr, hl]
      simp [Reader.window, Reader.start]
    rw [hcopied] at hsize ⊢
    simp only [Reader.window, Reader.start, Nat.sub_zero]
    by_cases hown : f = (h.stream w.stream).inode ∧ 0 < (h.disk.bytes f).size - o
    · rw [if_pos hown, if_pos hown.1] at hsize
      rw [if_pos hown]
      omega
    · rw [if_neg hown] at hsize ⊢
      have h0 : f = (h.stream w.stream).inode → (h.disk.bytes f).size - o = 0 :=
        fun hg => Nat.eq_zero_of_not_pos fun hpos => hown ⟨hg, hpos⟩
      split at hsize
      · have := h0 ‹_›
        omega
      · omega

end Reading

/-! ## The new claim's cell -/

/-- An opened stream is pushed after the others, on a file of the disk left by the opening; the
host keeps everything else. -/
theorem Host.openStream_shape {h h' : Host} {path : String} {n : Nat}
    (ho : h.openStream path = .ok (n, h')) :
    ∃ i d, n = h.streams.size ∧
      h' = { h with disk := d, streams := h.streams.push ⟨path, i, (d.bytes i).size, false⟩ } := by
  unfold openStream at ho
  cases hp : Disk.placeOf path with
  | error e => simp [hp, bind, Except.bind] at ho
  | ok p =>
    simp only [hp, bind, Except.bind] at ho
    split at ho
    · cases ho
      exact ⟨_, _, rfl, rfl⟩
    · split at ho
      · split at ho
        · cases ho
        · split at ho
          · cases ho
          · cases ho
            exact ⟨_, _, rfl, rfl⟩
      · split at ho
        · cases ho
        · split at ho
          · cases ho
          · cases ho
            exact ⟨_, _, rfl, rfl⟩
    · simp [throw, throwThe, MonadExceptOf.throw] at ho

theorem Host.cells_openStream {h h' : Host} {path : String} {n : Nat}
    (ho : h.openStream path = .ok (n, h')) : h'.cells = h.cells := by
  obtain ⟨i, d, -, rfl⟩ := openStream_shape ho
  rfl

namespace Action

variable {s s' : Store}

theorem createIn_cell {box : Container} {index : Nat} {lossTolerant : Bool} {c : ClaimRef}
    (h : (createIn box index lossTolerant).exec s = (.ok (.claim c), s')) :
    c.cell = s.host.cells.size := by
  unfold createIn at h
  simp only [exec_bind, exec_host, exec_tracking] at h
  split at h
  · simp [exec_bind, exec_tracking, exec_throw] at h
  · next n h1 ho =>
    simp only [exec_bind, exec_modifyHost, exec_modifyRepo, exec_newClaim, exec_pure,
      Prod.mk.injEq, Except.ok.injEq, Created.claim.injEq] at h
    rw [← h.1, Host.cells_openStream ho]

theorem exec_then_throw {α β : Type} (x : Action α) (e : StoreError) (s : Store) :
    ∃ e', (x >>= fun _ => (throw e : Action β)).exec s = (.error e', (x.exec s).2) := by
  rw [exec_bind]
  rcases x.exec s with ⟨_ | _, _⟩
  · exact ⟨_, rfl⟩
  · exact ⟨e, rfl⟩

/-- A clone that returns its new claim created it and copied into it to the end. -/
theorem clone_done {original copy : ClaimRef} {lossTolerant : Bool}
    (h : (clone original lossTolerant).exec s = (.ok (.claim copy), s')) :
    ∃ s1, (create lossTolerant).exec s = (.ok (.claim copy), s1) ∧
      (copyClaim original copy).exec s1 = (.ok .done, s') := by
  unfold clone at h
  rw [exec_bind] at h
  rcases hcr : (create lossTolerant).exec s with ⟨_ | (c | _), s1⟩ <;> rw [hcr] at h <;>
    dsimp only at h
  · cases h
  · rw [exec_bind, exec_attempt] at h
    rcases hcp : (copyClaim original c).exec s1 with ⟨e | (_ | ⟨r, w⟩), s2⟩ <;> rw [hcp] at h <;>
      dsimp only at h
    · obtain ⟨e', he⟩ := exec_then_throw (rollback c) e s2
      rw [h] at he
      cases he
    · simp only [exec_pure, Prod.mk.injEq, Except.ok.injEq, Cloned.claim.injEq] at h
      obtain ⟨rfl, rfl⟩ := h
      exact ⟨s1, rfl, hcp⟩
    · cases h
  · cases h

end Action

namespace Inv

variable {W : World}

/-- A create hands out its claim on a cell pushed after every cell there was. -/
theorem create_cell (hI : Inv W) (hids : W.store.repo.ids.value + 1 < 2 ^ 64) {lossTolerant : Bool}
    {copy : ClaimRef} {s1 : Store}
    (hcr : (Action.create lossTolerant).exec W.store = (.ok (.claim copy), s1)) :
    copy.cell = W.store.host.cells.size := by
  cases hpool : W.store.repo.pool.items with
  | cons e rest =>
    rw [Action.exec_create_of_pooled hI hpool] at hcr
    simp only [Prod.mk.injEq, Except.ok.injEq, Created.claim.injEq] at hcr
    rw [← hcr.1]
  | nil =>
    rw [Action.exec_create_of_empty W.store hI.running.1 hpool hids] at hcr
    obtain ⟨hreg, -⟩ := Action.selectContainer_regated (W.store.repo.ids.value + 1)
      { W.store with repo := { W.store.repo with ids := ⟨W.store.repo.ids.value + 1⟩ } }
      hI.layout.names
    rcases hsel : (Action.selectContainer (W.store.repo.ids.value + 1)).exec { W.store with
        repo := { W.store.repo with ids := ⟨W.store.repo.ids.value + 1⟩ } } with
      ⟨_ | (_ | box), s2⟩ <;> rw [hsel] at hcr hreg <;> dsimp only at hcr
    · cases hcr
    · cases hcr
    · rw [Action.createIn_cell hcr, hreg.host]

theorem writer_end (hI : Inv W) {c : Handed} (hc : c ∈ W.handed) {w : Writer}
    (hw : c.phase = .writing w) :
    c.claim.offset + w.written = (W.store.host.disk.bytes (W.store.host.stream w.stream).inode).size := by
  obtain ⟨-, hn, hsent, -⟩ := hI.writer c hc w hw
  obtain ⟨n, hn', hwr⟩ := hI.active_stream hc (by simp [hw, Phase.active])
  obtain rfl := hI.stream_unique hn' hn
  obtain ⟨-, i, -, hin, hsz⟩ := hI.stream_file _ _ hn'
  rw [hsent, ← hwr, hsz, hin]

end Inv

/-! ## A finished clone reads as its original -/

/-- The copy of `original` reads as `original` in `s`: both read, and the copy yields the same
bytes as long as their count fits the length cell. -/
def Store.ReadsAs (s : Store) (copy original : ClaimRef) : Prop :=
  ∃ bytes, (Action.exportAll original).exec s = (.ok bytes, s) ∧
    (bytes.size < 2 ^ 64 → (Action.exportAll copy).exec s = (.ok bytes, s))

namespace Inv

variable {W : World} {k : Nat} {w : Writer}

/-- A copy from a file into the writer the caller holds, not written to yet, that does not feed
itself and has fuel past its bound: it moves what `Reading.copied` says, its writer closes, and
afterwards the claim written reads as the original. -/
theorem copy_file_reads_as (hI : Inv W) (hk : k < W.handed.length)
    (hw : W.handed[k].phase = .writing w) (hw0 : w.written = 0)
    (hlive : W.store.live? w.claim.resource.key = some (.file (W.store.host.stream w.stream).inode))
    {original : ClaimRef} {rd : Reading}
    (hrd : (Action.read original).exec W.store = (.ok rd, W.store)) {f : Nat}
    (hf : rd.node = .file f) (hcell : original.cell ≠ w.claim.cell)
    (hnf : rd.feeds W.store.host w.stream = false) {fuel : Nat}
    (hfuel : rd.bound W.store.host < fuel) :
    ∃ w' s3, (Action.pump rd w 0 fuel).exec W.store =
        (.ok (.ok (rd.copied W.store.host w.stream), w'), s3) ∧
      (Action.closeWriter w').exec s3 =
        (.ok (), ((Action.completeWrite w'.claim.resource w'.stream w'.failed).exec s3).2) ∧
      ((Action.completeWrite w'.claim.resource w'.stream w'.failed).exec s3).2.ReadsAs
        w.claim original := by
  obtain ⟨-, hopen, hrd_r, hrd_c, hoff⟩ := Action.exec_read_of_ok hrd
  have hrc : rd.cell ≠ w.claim.cell := hrd_c ▸ hcell
  have hC := hI.copying hk hw hf hrc
  have hmem := List.getElem_mem hk
  obtain ⟨hwc, -, -, -⟩ := hI.writer _ hmem w hw
  obtain ⟨w', s3, hexec, hclose, hcellv⟩ := hI.copy_runs_out hk hw hf hrc hnf hfuel
  refine ⟨w', s3, hexec, hclose, ?_⟩
  have hfit : original.offset ≤ (W.store.host.disk.bytes f).size := by
    rw [hf, Disk.sizeOf] at hoff
    exact hoff
  obtain ⟨n, w'', hres, hM, hA⟩ :=
    Action.exec_pump_mirrors hC hf (Reading.Mirrors.start hrd_r hfit _) 0 fuel
  rw [hexec] at hres hM hA
  simp only [Except.ok.injEq, Prod.mk.injEq, Nat.zero_add] at hres
  obtain ⟨rfl, -⟩ := hres
  dsimp only at hM hA
  obtain ⟨res, w3, x, s3', hexec', -, hxw, hI3⟩ := hI.pump hk hw rd 0 fuel
  rw [hexec, Prod.mk.injEq, Except.ok.injEq, Prod.mk.injEq] at hexec'
  obtain ⟨⟨-, rfl⟩, rfl⟩ := hexec'
  have hx : x ∈ W.handed.set k x := List.mem_iff_getElem.2 ⟨k, by simpa using hk, by simp⟩
  obtain ⟨hwc3, hn3, -, -⟩ := hI3.writer x hx w' hxw
  have hkey : w'.claim.resource.key = x.key := by simp [Handed.key, hwc3]
  obtain ⟨hcont, hdisk, hcells⟩ := Action.completeWrite_reads (hI3.stream_file _ _ hn3).1
    (hI3.streamOf?_eq_some.2 (hkey ▸ hn3)) w'.failed
  generalize ((Action.completeWrite w'.claim.resource w'.stream w'.failed).exec s3).2 = s'
    at hcont hdisk hcells hcellv ⊢
  have hnode : ∀ q, s'.host.disk.node? q = W.store.host.disk.node? q := fun q => by
    rw [hdisk]
    exact hA.node q
  have hcont' : s'.repo.containers = W.store.repo.containers := by rw [hcont, hA.repo]
  have hstop : original.offset + rd.copied W.store.host w.stream ≤ (s'.host.disk.bytes f).size := by
    have := hM.within
    rw [Reading.position_skip, hrd_r] at this
    rw [hdisk]
    exact this
  have hopen' : (Action.openContent original.resource).exec s' = (.ok (.file f), s') := by
    rw [Action.exec_openContent_congr hcont' hnode, hopen, hf]
  have hread := Action.exec_read hopen' (by omega)
  obtain ⟨ρ, hρ⟩ := Reading.readToEnd_start s'.host f original.offset original.cell
  have hlim : (⟨.file f, Reader.start original.offset, original.cell⟩ : Reading).limit s'.host =
      rd.limit W.store.host := by
    have hc : s'.host.cell original.cell = W.store.host.cell original.cell := by
      rw [show s'.host.cell original.cell = s3.host.cell original.cell by
        unfold Host.cell; rw [hcells]]
      exact hA.cells _ hcell
    simp only [Reading.limit, hrd_c, hc]
  have hsize : (s'.host.disk.bytes f).size = (W.store.host.disk.bytes f).size +
      if f = (W.store.host.stream w.stream).inode then rd.copied W.store.host w.stream else 0 := by
    rw [hdisk]
    split
    · next hg =>
      rw [hg]
      exact hA.size
    · next hg => rw [hA.bytes f hg, Nat.add_zero]
  rw [hlim, Reading.window_copied hC hf hrd_r hfit hnf hsize] at hρ
  refine ⟨_, Action.exec_exportAll hread hρ, fun hlen => ?_⟩
  rw [ByteArray.size_extract] at hlen
  have hplain : w.claim.resource.Plain := by
    obtain ⟨i, hi, -⟩ := hI.stored _ hmem
    rw [hwc]
    exact (hI.numbered _ i hi).1.plain
  have hopenc := Action.exec_openContent_of_live (hI.sound.of_node? hnode) hplain
    ((Store.live?_congr hcont' hnode _).trans hlive)
  have hat := hI.writer_end hmem hw
  rw [hw0, Nat.add_zero, ← hwc] at hat
  have hsz : w.claim.offset + rd.copied W.store.host w.stream =
      (s'.host.disk.bytes (W.store.host.stream w.stream).inode).size := by
    rw [hdisk, hA.size, ← hat]
  have hreadc := Action.exec_read hopenc (by omega)
  rw [← hwc, hw0, Nat.zero_add] at hcellv
  obtain ⟨ρc, hρc⟩ := Reading.readToEnd_of_signed64 hcellv (by omega) hsz
  have hsame := hM.same
  rw [Reading.position_skip, hrd_r, ← hat] at hsame
  rw [Action.exec_exportAll hreadc hρc, hsz, hdisk, ← hsame]
  rfl

/-- A copy from a directory into the writer the caller holds, not written to yet, whose limit
lets nothing through: its writer closes, and afterwards both the claim written and the original
read nothing. -/
theorem copy_dir_reads_as (hI : Inv W) (hk : k < W.handed.length)
    (hw : W.handed[k].phase = .writing w) (hw0 : w.written = 0)
    (hlive : W.store.live? w.claim.resource.key = some (.file (W.store.host.stream w.stream).inode))
    {original : ClaimRef} {rd : Reading}
    (hrd : (Action.read original).exec W.store = (.ok rd, W.store)) (hd : rd.node = .dir)
    (hwin : rd.reader.window (rd.limit W.store.host) copyChunk = 0) :
    (Action.closeWriter w).exec W.store =
        (.ok (), ((Action.completeWrite w.claim.resource w.stream w.failed).exec W.store).2) ∧
      ((Action.completeWrite w.claim.resource w.stream w.failed).exec W.store).2.ReadsAs
        w.claim original := by
  obtain ⟨-, hopen, hrd_r, hrd_c, hoff⟩ := Action.exec_read_of_ok hrd
  refine ⟨Action.exec_closeWriter hI hk hw, ?_⟩
  have hmem := List.getElem_mem hk
  obtain ⟨hwc, hn, hsent, -⟩ := hI.writer _ hmem w hw
  have hkey : w.claim.resource.key = W.handed[k].key := by simp [Handed.key, hwc]
  obtain ⟨hcont, hdisk, hcells⟩ := Action.completeWrite_reads (hI.stream_file _ _ hn).1
    (hI.streamOf?_eq_some.2 (hkey ▸ hn)) w.failed
  generalize ((Action.completeWrite w.claim.resource w.stream w.failed).exec W.store).2 = s'
    at hcont hdisk hcells ⊢
  have hnode : ∀ q, s'.host.disk.node? q = W.store.host.disk.node? q := fun q => by rw [hdisk]
  have hcellof : ∀ c, s'.host.cell c = W.store.host.cell c := fun c => by
    unfold Host.cell
    rw [hcells]
  have hzero : rd.limit W.store.host = some 0 := by
    rw [hrd_r] at hwin
    cases hl : rd.limit W.store.host with
    | none =>
      rw [hl] at hwin
      simp [Reader.window, copyChunk] at hwin
    | some l =>
      rw [hl] at hwin
      simp only [Reader.window, Reader.start, Nat.sub_zero, copyChunk] at hwin
      rw [show l = 0 by omega]
  have hopen' : (Action.openContent original.resource).exec s' = (.ok .dir, s') := by
    rw [Action.exec_openContent_congr hcont hnode, hopen, hd]
  have hread := Action.exec_read_at hopen' (by rw [hd] at hoff; exact hoff)
  have hlim : (⟨.dir, Reader.start original.offset, original.cell⟩ : Reading).limit s'.host =
      some 0 := by
    rw [← hzero]
    simp only [Reading.limit, hrd_c, hcellof]
  have hρ : (⟨.dir, Reader.start original.offset, original.cell⟩ : Reading).readToEnd s'.host =
      .ok (ByteArray.empty, ⟨.dir, Reader.start original.offset, original.cell⟩) := by
    simp only [Reading.readToEnd]
    rw [Reading.read_dir ⟨.dir, Reader.start original.offset, original.cell⟩ rfl 1, hlim]
    simp [Reader.window]
  refine ⟨_, Action.exec_exportAll hread hρ, fun _ => ?_⟩
  have hplain : w.claim.resource.Plain := by
    obtain ⟨i, hi, -⟩ := hI.stored _ hmem
    rw [hwc]
    exact (hI.numbered _ i hi).1.plain
  have hopenc := Action.exec_openContent_of_live (hI.sound.of_node? hnode) hplain
    ((Store.live?_congr hcont hnode _).trans hlive)
  have hat := hI.writer_end hmem hw
  rw [hw0, Nat.add_zero, ← hwc] at hat
  have hreadc := Action.exec_read hopenc (by rw [hdisk]; exact Nat.le_of_eq hat)
  have hc0 : s'.host.cell w.claim.cell = (0 : Nat) := by
    obtain ⟨i, -, hst⟩ := hI.stored _ hmem
    rw [hcellof, hwc, hst.cell, if_neg fun h => Phase.noConfusion (hw.symm.trans h), ← hsent, hw0]
    rfl
  have hfit : w.claim.offset + 0 ≤
      (s'.host.disk.bytes (W.store.host.stream w.stream).inode).size := by
    rw [hdisk, Nat.add_zero]
    exact Nat.le_of_eq hat
  obtain ⟨ρc, hρc⟩ := Reading.readToEnd_of_length hc0 hfit
  rw [Action.exec_exportAll hreadc hρc, Nat.add_zero, ByteArray.extract_same]

end Inv

/-- The copy of a clone, in a world a run reaches, of a claim on a cell the store has: it takes
the writer of the claim the create handed out, on the stream registered for that claim, whose file
lies at its live place, and then ends in one of three ways. It is done, and the new claim reads as
the original; or it failed, and the writer was aborted on the store taking it left; or it feeds
itself. -/
theorem Reachable.clone_copy_ends {W : World} (hW : Reachable W)
    (hids : W.store.repo.ids.value + 1 < 2 ^ 64) {original : ClaimRef}
    (hcell : original.cell < W.store.host.cells.size) {lossTolerant : Bool} {copy : ClaimRef}
    {s1 : Store} (hcr : (Action.create lossTolerant).exec W.store = (.ok (.claim copy), s1)) :
    ∃ n, (Action.write copy).exec s1 =
        (.ok (Writer.start copy n), { s1 with host := s1.host.setCell copy.cell 0 }) ∧
      Inv ⟨{ s1 with host := s1.host.setCell copy.cell 0 },
        W.handed ++ [⟨copy, .empty, .writing (Writer.start copy n)⟩], World.note W.files s1⟩ ∧
      s1.live? copy.resource.key = some (.file (s1.host.stream n).inode) ∧
      ((((Action.copyClaim original copy).exec s1).1 = .ok .done ∧
          ((Action.copyClaim original copy).exec s1).2.ReadsAs copy original) ∨
        (∃ e, (Action.copyClaim original copy).exec s1 = (.error e,
          ((Action.abortWriter (Writer.start copy n)).exec
            { s1 with host := s1.host.setCell copy.cell 0 }).2)) ∨
        ∃ r w, ((Action.copyClaim original copy).exec s1).1 = .ok (.endless r w)) := by
  have hI := hW.inv
  have hrc : original.cell ≠ copy.cell := by
    rw [hI.create_cell hids hcr]
    exact Nat.ne_of_lt hcell
  have hW1 : Reachable (W.step (.create lossTolerant)) := .step _ hW trivial fun _ => hids
  have hstep : W.step (.create lossTolerant) =
      ⟨s1, W.handed ++ [⟨copy, .empty, .fresh⟩], World.note W.files s1⟩ := by
    simp only [World.step, hcr, World.after]
  rw [hstep] at hW1
  have hk1 : W.handed.length < (W.handed ++ [(⟨copy, .empty, .fresh⟩ : Handed)]).length := by simp
  obtain ⟨n, hwrite, -⟩ := hW1.inv.write_fresh hk1 (by simp)
  simp only [List.getElem_append_right (Nat.le_refl _), Nat.sub_self, List.getElem_cons_zero]
    at hwrite
  obtain ⟨hw0, -, hI2⟩ := hI.clone_begins hids hcr hwrite
  have hk2 : W.handed.length <
      (W.handed ++ [(⟨copy, .empty, .writing (Writer.start copy n)⟩ : Handed)]).length := by simp
  have hw2 : (W.handed ++ [(⟨copy, .empty, .writing (Writer.start copy n)⟩ : Handed)])[
      W.handed.length].phase = .writing (Writer.start copy n) := by simp
  have hlive : s1.live? copy.resource.key = some (.file (s1.host.stream n).inode) := by
    obtain ⟨-, hn, -, -⟩ := hI2.writer _ (List.getElem_mem hk2) _ hw2
    simp only [List.getElem_append_right (Nat.le_refl _), Nat.sub_self, List.getElem_cons_zero,
      Handed.key] at hn
    exact hW1.live_of_stream hn
  refine ⟨n, hwrite, hI2, hlive, ?_⟩
  rcases hcp : (Action.copyClaim original copy).exec s1 with ⟨res, s3⟩
  dsimp only
  -- the copy reads the original, and unless it feeds itself, runs to the end
  unfold Action.copyClaim at hcp
  rw [Action.exec_bind, hwrite] at hcp
  dsimp only at hcp
  rw [Action.exec_bind, Action.exec_attempt, Action.read_snd] at hcp
  have hro := (Action.readOnly_read original).exec_eq { s1 with host := s1.host.setCell copy.cell 0 }
  rcases hres : ((Action.read original).exec
    { s1 with host := s1.host.setCell copy.cell 0 }).1 with e | rd <;> rw [hres] at hcp hro <;>
    dsimp only at hcp
  · obtain ⟨e', he⟩ := Action.exec_then_throw (Action.abortWriter (Writer.start copy n)) e
      { s1 with host := s1.host.setCell copy.cell 0 }
    rw [hcp] at he
    exact .inr (.inl ⟨e', he⟩)
  simp only [Action.exec_bind, Action.exec_host] at hcp
  split at hcp
  · simp only [Action.exec_pure, Prod.mk.injEq] at hcp
    exact .inr (.inr ⟨rd, _, by rw [← hcp.1]⟩)
  next hnf =>
  rw [Bool.not_eq_true] at hnf
  have hrd := hro
  generalize hb : (_ : Nat) + 1 = fuel at hcp
  have hfuel : rd.bound (s1.host.setCell copy.cell 0) < fuel := by
    rw [← hb]
    unfold Reading.bound Reading.ahead
    cases rd.limit (s1.host.setCell copy.cell 0) <;> dsimp only <;> omega
  cases hnode : rd.node with
  | file f =>
    obtain ⟨w', s4, hexec, hclose, hreads⟩ :=
      hI2.copy_file_reads_as hk2 hw2 hw0 hlive hrd hnode hrc hnf hfuel
    rw [Action.exec_bind, hexec] at hcp
    dsimp only at hcp
    rw [Action.exec_bind, hclose] at hcp
    simp only [Action.exec_pure, Prod.mk.injEq] at hcp
    rw [← hcp.1, ← hcp.2]
    exact .inl ⟨rfl, hreads⟩
  | dir =>
    rw [← hb, Action.exec_bind, Action.exec_pump_dir hnode] at hcp
    by_cases hwin : rd.reader.window (rd.limit (s1.host.setCell copy.cell 0)) copyChunk = 0
    · obtain ⟨hclose, hreads⟩ := hI2.copy_dir_reads_as hk2 hw2 hw0 hlive hrd hnode hwin
      rw [if_pos hwin] at hcp
      dsimp only at hcp
      rw [Action.exec_bind, hclose] at hcp
      simp only [Action.exec_pure, Prod.mk.injEq] at hcp
      rw [← hcp.1, ← hcp.2]
      exact .inl ⟨rfl, hreads⟩
    · rw [if_neg hwin] at hcp
      dsimp only at hcp
      obtain ⟨e', he⟩ := Action.exec_then_throw (Action.abortWriter (Writer.start copy n))
        (.io .isADirectory) { s1 with host := s1.host.setCell copy.cell 0 }
      rw [hcp] at he
      exact .inr (.inl ⟨e', he⟩)

theorem clone_reads_as_original {W : World} (hW : Reachable W)
    (hids : W.store.repo.ids.value + 1 < 2 ^ 64) {original : ClaimRef}
    (hcell : original.cell < W.store.host.cells.size) {lossTolerant : Bool} {copy : ClaimRef}
    {s' : Store} (hcl : (Action.clone original lossTolerant).exec W.store = (.ok (.claim copy), s')) :
    s'.ReadsAs copy original := by
  obtain ⟨s1, hcr, hcp⟩ := Action.clone_done hcl
  obtain ⟨n, -, -, -, hends⟩ := hW.clone_copy_ends hids hcell hcr
  rw [hcp] at hends
  rcases hends with ⟨-, hreads⟩ | ⟨e, he⟩ | ⟨r, w, he⟩
  · exact hreads
  · cases he
  · cases he

end ClaimStore
