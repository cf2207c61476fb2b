import ClaimStore.Proofs.Repo.Invariant
import ClaimStore.Proofs.Tracker.Records
/-!
# Writing through the claims handed out

What the caller's writing steps do to a world that satisfies `Inv`: taking a claim's writer,
writing, flushing, closing and aborting. Taking a writer succeeds exactly for a claim not yet
written; a write through a writer the caller holds always succeeds, since the stream it uses
is the open stream of the claim's resource claim; ending the writer returns the resource claim
to the pool or retires it. Each step keeps `Inv`.
-/

set_option autoImplicit false

namespace ClaimStore

open ClaimStore.Claim ClaimStore.FileSystem

/-! ## Streams and cells of a host -/

namespace Host

variable (h : Host)

@[simp] theorem disk_setStream (n : Nat) (s : Stream) : (h.setStream n s).disk = h.disk := rfl
@[simp] theorem cells_setStream (n : Nat) (s : Stream) : (h.setStream n s).cells = h.cells := rfl
@[simp] theorem now_setStream (n : Nat) (s : Stream) : (h.setStream n s).now = h.now := rfl
@[simp] theorem disk_close (n : Nat) : (h.close n).disk = h.disk := rfl
@[simp] theorem cells_close (n : Nat) : (h.close n).cells = h.cells := rfl
@[simp] theorem now_close (n : Nat) : (h.close n).now = h.now := rfl
@[simp] theorem disk_setCell (n : Nat) (v : Int) : (h.setCell n v).disk = h.disk := rfl
@[simp] theorem streams_setCell (n : Nat) (v : Int) : (h.setCell n v).streams = h.streams := rfl
@[simp] theorem now_setCell (n : Nat) (v : Int) : (h.setCell n v).now = h.now := rfl

@[simp] theorem stream_setCell (n : Nat) (v : Int) (m : Nat) :
    (h.setCell n v).stream m = h.stream m := rfl

@[simp] theorem size_setCell (n : Nat) (v : Int) : (h.setCell n v).cells.size = h.cells.size := by
  simp [setCell]

theorem cell_setCell {n : Nat} (hn : n < h.cells.size) (v : Int) (m : Nat) :
    (h.setCell n v).cell m = if m = n then v else h.cell m := by
  simp only [cell, setCell, Array.set!_eq_setIfInBounds, Array.getD_eq_getD_getElem?,
    Array.getElem?_setIfInBounds]
  by_cases hm : m = n
  · simp [hm, hn]
  · simp [Ne.symm hm, hm]

theorem lt_size_of_open {n : Nat} (hn : (h.stream n).closed = false) : n < h.streams.size := by
  refine Classical.byContradiction fun hlt => ?_
  simp [stream, Array.getD_eq_getD_getElem?, Array.getElem?_eq_none (Nat.le_of_not_lt hlt)] at hn

theorem stream_setStream {n : Nat} (hn : n < h.streams.size) (s : Stream) (m : Nat) :
    (h.setStream n s).stream m = if m = n then s else h.stream m := by
  simp only [stream, setStream, Array.set!_eq_setIfInBounds, Array.getD_eq_getD_getElem?,
    Array.getElem?_setIfInBounds]
  by_cases hm : m = n
  · simp [hm, hn]
  · simp [Ne.symm hm, hm]

theorem stream_close (n m : Nat) :
    (h.close n).stream m = if m = n then { h.stream n with closed := true } else h.stream m := by
  by_cases hn : n < h.streams.size
  · exact stream_setStream h hn _ m
  -- a stream the host does not have reads as the default one, closed already
  · have hd : h.stream n = ⟨"", 0, 0, true⟩ := by
      simp [stream, Array.getD_eq_getD_getElem?, Array.getElem?_eq_none (Nat.le_of_not_lt hn)]
    simp only [close, setStream, Array.set!_eq_setIfInBounds, stream, Array.getD_eq_getD_getElem?,
      Array.getElem?_setIfInBounds]
    by_cases hm : m = n
    · subst hm
      simp only [stream] at hd
      simp [hn]
    · simp [Ne.symm hm, hm]

theorem flush_of_open {n : Nat} (hn : (h.stream n).closed = false) : h.flush n = .ok () := by
  simp [flush, hn]; rfl

theorem writeAll_of_open {n : Nat} (hn : (h.stream n).closed = false) (bytes : ByteArray) :
    h.writeAll n bytes = .ok { (h.setStream n { h.stream n with written := (h.stream n).written +
      bytes.size }) with disk := h.disk.append (h.stream n).inode bytes h.now } := by
  simp [writeAll, hn]; rfl

end Host

theorem Writer.write_of_open (w : Writer) (h : Host) (bytes : ByteArray) (hw : w.finished = false)
    (hn : (h.stream w.stream).closed = false) :
    w.write h bytes = (.ok bytes.size, { w with written := w.written + bytes.size },
      ({ (h.setStream w.stream { h.stream w.stream with
          written := (h.stream w.stream).written + bytes.size }) with
          disk := h.disk.append (h.stream w.stream).inode bytes h.now } : Host).setCell w.claim.cell
        (signed64 (w.written + bytes.size))) := by
  simp [Writer.write, hw, Host.writeAll_of_open _ hn]

namespace Writer

variable {w : Writer} {h : Host} (bytes : ByteArray) (hw : w.finished = false)
  (hn : (h.stream w.stream).closed = false)
include hw hn

theorem write_fst : (w.write h bytes).1 = .ok bytes.size := by
  rw [write_of_open _ _ _ hw hn]

theorem write_writer : (w.write h bytes).2.1 = { w with written := w.written + bytes.size } := by
  rw [write_of_open _ _ _ hw hn]

theorem stream_write (m : Nat) : (w.write h bytes).2.2.stream m =
    if m = w.stream then { h.stream w.stream with written := (h.stream w.stream).written + bytes.size }
    else h.stream m := by
  rw [write_of_open _ _ _ hw hn]
  exact Host.stream_setStream _ (Host.lt_size_of_open _ hn) _ m

theorem node?_write (q : Place) : (w.write h bytes).2.2.disk.node? q = h.disk.node? q := by
  rw [write_of_open _ _ _ hw hn]
  rfl

theorem now_write : (w.write h bytes).2.2.now = h.now := by
  rw [write_of_open _ _ _ hw hn]
  rfl

theorem size_write : (w.write h bytes).2.2.disk.inodes.size = h.disk.inodes.size := by
  rw [write_of_open _ _ _ hw hn]
  simp

theorem bytes_write (hi : (h.stream w.stream).inode < h.disk.inodes.size) (j : Nat) :
    (w.write h bytes).2.2.disk.bytes j = if j = (h.stream w.stream).inode then
      h.disk.bytes j ++ bytes else h.disk.bytes j := by
  rw [write_of_open _ _ _ hw hn]
  simp only [Host.disk_setCell]
  rw [FileSystem.Disk.bytes_append _ hi]
  split <;> simp_all

theorem cell_write (hc : w.claim.cell < h.cells.size) (m : Nat) :
    (w.write h bytes).2.2.cell m =
      if m = w.claim.cell then signed64 (w.written + bytes.size) else h.cell m := by
  rw [write_of_open _ _ _ hw hn]
  exact Host.cell_setCell _ hc _ m

theorem cells_write : (w.write h bytes).2.2.cells.size = h.cells.size := by
  rw [write_of_open _ _ _ hw hn]
  simp

end Writer

/-! ## The writing actions -/

/-- The store once a resource claim's stream `n` is retired and the claim frozen: the table
forgets the claim, the tracker freezes it and the stream closes. -/
def Store.retire (s : Store) (c : Resource) (n : Nat) : Store :=
  { repo := { s.repo with streams := s.repo.streams.filter (·.1 != c.key),
                          tracker := (s.repo.tracker.freeze c).2 },
    host := s.host.close n }

namespace Action

variable (s : Store)

theorem exec_map {α β : Type} (f : α → β) (x : Action α) :
    (f <$> x).exec s = match x.exec s with
      | (.ok a, s') => (.ok (f a), s')
      | (.error e, s') => (.error e, s') := by
  unfold exec
  rcases h : x.run.run s with ⟨_ | a, s'⟩
  · simp only [ExceptT.run_map, StateT.run_map, h]; rfl
  · simp only [ExceptT.run_map, StateT.run_map, h]; rfl

theorem exec_write_of_open (c : ClaimRef) {n : Nat} (hc : s.host.cell c.cell < 0)
    (hn : s.repo.streamOf? c.resource = some n) (he : (s.host.stream n).written = c.offset) :
    (write c).exec s = (.ok (Writer.start c n), { s with host := s.host.setCell c.cell 0 }) := by
  simp [write, exec_bind, exec_map, hn, he, Int.not_le.2 hc]

theorem exec_write_of_not_open (c : ClaimRef)
    (h : ¬ (s.host.cell c.cell < 0 ∧ ∃ n, s.repo.streamOf? c.resource = some n ∧
      (s.host.stream n).written = c.offset)) :
    ∃ e, (write c).exec s = (.error e, s) := by
  by_cases hc : s.host.cell c.cell < 0
  · cases hn : s.repo.streamOf? c.resource with
    | none => simp [write, exec_bind, hn, Int.not_le.2 hc]
    | some n =>
      have he : (s.host.stream n).written ≠ c.offset := fun he => h ⟨hc, n, hn, he⟩
      simp [write, exec_bind, hn, he, Int.not_le.2 hc]
  · simp [write, exec_bind, Int.not_lt.1 hc]

theorem exec_writeWith (w : Writer) (bytes : ByteArray) :
    (writeWith w bytes).exec s =
      (.ok ((w.write s.host bytes).1, (w.write s.host bytes).2.1),
        { s with host := (w.write s.host bytes).2.2 }) := by
  simp [writeWith, exec_bind, exec_map]

theorem exec_retireStream_of_some (c : Resource) {n : Nat} (hn : s.repo.streamOf? c = some n)
    (expected : Option Nat) (he : expected = none ∨ expected = some n) :
    (retireStream c expected).exec s =
      (.ok (), { repo := { s.repo with streams := s.repo.streams.filter (·.1 != c.key) },
                 host := s.host.close n }) := by
  rcases he with rfl | rfl <;> simp [retireStream, exec_bind, hn]

theorem exec_retireStream_of_none (c : Resource) (hn : s.repo.streamOf? c = none) :
    (retireStream c none).exec s = (.ok (), s) := by
  simp [retireStream, exec_bind, hn]

/-- Whether the close hook returns a resource claim to the pool: nothing failed, it is below the
size limit, it is still registered with this stream and writable, and the pool has room. -/
def Pools (s : Store) (c : Resource) (n : Nat) (failed : Bool) : Prop :=
  failed = false ∧ (s.host.stream n).written < s.repo.settings.maxAppendable ∧
    s.repo.shutDown = false ∧ s.repo.streamOf? c = some n ∧ (s.repo.tracker.state c).isWritable ∧
    s.repo.pool.items.length < s.repo.pool.bound

theorem exec_completeWrite_of_pools (c : Resource) {n : Nat} {failed : Bool}
    (hn : (s.host.stream n).closed = false) (hp : Pools s c n failed) :
    (completeWrite c n failed).exec s =
      (.ok (.ok ()), { s with repo := { s.repo with pool :=
        ⟨s.repo.pool.items ++ [(c, (s.host.stream n).written)], s.repo.pool.bound,
          s.repo.pool.bound_pos, by rw [List.length_append, List.length_singleton]; exact hp.2.2.2.2.2⟩ } }) := by
  obtain ⟨rfl, hlen, hdown, hsn, hw, hroom⟩ := hp
  simp [completeWrite, exec_bind, exec_map, Host.flush_of_open _ hn, hlen, hdown, hsn, hw, Fifo.offer, hroom]

/-- The close hook of an open stream registered for its claim, retiring the stream and freezing
the claim when it may not be appended to any more. -/
theorem exec_completeWrite_of_not_pools (c : Resource) {n : Nat} {failed : Bool}
    (hn : (s.host.stream n).closed = false) (hsn : s.repo.streamOf? c = some n)
    (hp : ¬ Pools s c n failed) :
    (completeWrite c n failed).exec s = (.ok (.ok ()), s.retire c n) := by
  have hret := exec_retireStream_of_some s c hsn (some n) (.inr rfl)
  cases failed with
  | true => simp [completeWrite, exec_bind, exec_map, hret, Store.retire]
  | false =>
    by_cases hA : (s.host.stream n).written < s.repo.settings.maxAppendable ∧ s.repo.shutDown = false
    · obtain ⟨hl, hd⟩ := hA
      by_cases hwr : (s.repo.tracker.state c).isWritable
      · have hfull : ¬ s.repo.pool.items.length < s.repo.pool.bound :=
          fun h5 => hp ⟨rfl, hl, hd, hsn, hwr, h5⟩
        simp [completeWrite, exec_bind, exec_map, Host.flush_of_open _ hn, hd, hsn, hwr,
          Fifo.offer, hfull, hret, Store.retire]
      · simp [completeWrite, exec_bind, exec_map, Host.flush_of_open _ hn, hd, hsn, hwr, hret,
          Store.retire]
    · have hA' : ¬ ((s.host.stream n).written < s.repo.settings.maxAppendable ∧
          s.repo.shutDown = false) := hA
      simp [completeWrite, exec_bind, exec_map, Host.flush_of_open _ hn, hA', hret, Store.retire]

theorem exec_endWriter (w : Writer) (finish : Writer → Host → Option (IoResult Unit × Bool) × Writer)
    {failed : Bool} (hf : (finish w s.host).1 = some (.ok (), failed)) :
    (endWriter w finish).exec s = (completeWrite w.claim.resource w.stream failed).exec s := by
  have hok : Writer.combine (.ok ()) = id := funext fun _ => rfl
  simp [endWriter, exec_bind, hf, hok]

end Action

theorem extract_append_of_le {a b : ByteArray} {i j : Nat} (h : j ≤ a.size) :
    (a ++ b).extract i j = a.extract i j := by
  rw [ByteArray.extract_append, show j - a.size = 0 by omega,
    (ByteArray.extract_eq_empty_iff (b := b) (i := i - a.size) (j := 0)).2 (by simp),
    ByteArray.append_empty]

theorem extract_append_of_end {a b : ByteArray} {o n : Nat} (h : o + n = a.size) :
    (a ++ b).extract o (o + (n + b.size)) = a.extract o (o + n) ++ b := by
  rw [ByteArray.extract_append]
  congr 1
  · rw [ByteArray.ext_iff, ByteArray.data_extract, ByteArray.data_extract,
      Array.extract_eq_extract_right, ByteArray.size_data]
    omega
  · rw [show o - a.size = 0 by omega, show o + (n + b.size) - a.size = b.size by omega,
      ByteArray.extract_zero_size]

theorem signed64_of_lt {n : Nat} (h : n < 2 ^ 63) : signed64 n = n := by
  rw [signed64, if_pos h]

theorem le_of_signed64_neg {n : Nat} (h : signed64 n < 0) : 2 ^ 63 ≤ n := by
  refine Nat.le_of_not_lt fun hn => ?_
  rw [signed64_of_lt hn] at h
  omega

theorem Handed.Stored.congr {c : Handed} {s s' : Store} {i : Nat} (h : c.Stored s i)
    (hd : s'.host.disk.bytes i = s.host.disk.bytes i)
    (hc : s'.host.cell c.claim.cell = s.host.cell c.claim.cell)
    (hr : s'.repo.registered c.key = s.repo.registered c.key) : c.Stored s' i where
  fits := hd ▸ h.fits
  bytes := hd ▸ h.bytes
  cell := hc ▸ h.cell
  fresh := h.fresh
  last := hd ▸ h.last
  long := hr ▸ h.long

theorem Handed.Stored.append {c c' : Handed} {s s' : Store} {i : Nat} {b : ByteArray}
    (h : c.Stored s i) (ha : c.phase.active) (hclaim : c'.claim = c.claim)
    (hsent : c'.sent = c.sent ++ b) (hf : c'.phase ≠ .fresh) (ha' : c'.phase.active)
    (hb : s'.host.disk.bytes i = s.host.disk.bytes i ++ b)
    (hc : s'.host.cell c.claim.cell = signed64 c'.sent.size) : c'.Stored s' i := by
  have hend := h.last (.inl ha)
  have hsize : c'.sent.size = c.sent.size + b.size := by rw [hsent, ByteArray.size_append]
  refine
    { fits := ?_
      bytes := ?_
      cell := by rw [hclaim, hc, if_neg hf]
      fresh := fun h' => absurd h' hf
      last := fun _ => ?_
      long := fun _ => .inl ha' }
  · rw [hb, hclaim, hsize, ByteArray.size_append]
    omega
  · rw [hb, hclaim, hsize, extract_append_of_end hend, h.bytes, hsent]
  · rw [hb, hclaim, hsize, ByteArray.size_append, ← hend]
    omega

theorem Handed.Stored.append_behind {c : Handed} {s s' : Store} {i : Nat} {b : ByteArray}
    (h : c.Stored s i) (hq : ¬ (c.phase.active ∨ 2 ^ 63 ≤ c.sent.size))
    (hb : s'.host.disk.bytes i = s.host.disk.bytes i ++ b)
    (hc : s'.host.cell c.claim.cell = s.host.cell c.claim.cell)
    (hr : s'.repo.registered c.key = s.repo.registered c.key) : c.Stored s' i where
  fits := by
    rw [hb, ByteArray.size_append]
    exact Nat.le_add_right_of_le h.fits
  bytes := by rw [hb, extract_append_of_le h.fits, h.bytes]
  cell := hc ▸ h.cell
  fresh := h.fresh
  last := fun hl => absurd hl hq
  long := hr ▸ h.long

theorem Handed.Stored.finish {c : Handed} {s s' : Store} {i : Nat} {w : Writer} (h : c.Stored s i)
    (hw : c.phase = .writing w) (hd : s'.host.disk.bytes i = s.host.disk.bytes i)
    (hc : s'.host.cell c.claim.cell = s.host.cell c.claim.cell)
    (hlong : 2 ^ 63 ≤ c.sent.size → s'.repo.registered c.key = false) :
    ({ c with phase := .done } : Handed).Stored s' i where
  fits := hd ▸ h.fits
  bytes := hd ▸ h.bytes
  cell := by
    have := h.cell
    rw [if_neg (by simp [hw])] at this
    simpa [hc] using this
  fresh := nofun
  last := fun _ => hd ▸ h.last (.inl (by simp [hw, Phase.active]))
  long := fun hl => .inr (hlong hl)

theorem Handed.Stored.unregister {c : Handed} {s s' : Store} {i : Nat} (h : c.Stored s i)
    (hd : s'.host.disk.bytes i = s.host.disk.bytes i)
    (hc : s'.host.cell c.claim.cell = s.host.cell c.claim.cell)
    (hr : s'.repo.registered c.key = false) : c.Stored s' i where
  fits := hd ▸ h.fits
  bytes := hd ▸ h.bytes
  cell := hc ▸ h.cell
  fresh := h.fresh
  last := hd ▸ h.last
  long := fun _ => .inr hr

@[simp] theorem Store.disk_retire (s : Store) (c : Resource) (n : Nat) :
    (s.retire c n).host.disk = s.host.disk := rfl

@[simp] theorem Store.pool_retire (s : Store) (c : Resource) (n : Nat) :
    (s.retire c n).repo.pool = s.repo.pool := rfl

@[simp] theorem Store.cell_retire (s : Store) (c : Resource) (n : Nat) (m : Nat) :
    (s.retire c n).host.cell m = s.host.cell m := rfl

theorem Store.registered_retire (s : Store) (c : Resource) (n : Nat) (k : ClaimKey) :
    (s.retire c n).repo.registered k = (s.repo.registered k && k != c.key) := by
  simp only [Store.retire, Repo.registered, List.any_filter]
  by_cases h : k = c.key
  · subst h
    simp
  · have : ∀ e : ClaimKey × Nat, ((e.1 != c.key) && (e.1 == k)) = (e.1 == k) := by
      intro e
      by_cases he : e.1 = k <;> simp [he, h]
    simp [this, h]

namespace Inv

variable {W : World}

theorem quiet_behind (hI : Inv W) {j k : Nat} (hj : j < W.handed.length) (hk : k < W.handed.length)
    (hjk : j ≠ k) (ha : W.handed[k].phase.active) (hkey : W.handed[j].key = W.handed[k].key) :
    ¬ (W.handed[j].phase.active ∨ 2 ^ 63 ≤ W.handed[j].sent.size) := by
  have hnot : W.handed[j].phase.active = false :=
    Bool.eq_false_iff.2 fun haj => hjk (hI.active_unique hj hk haj ha hkey)
  have hreg := hI.active_registered (List.getElem_mem hk) ha
  rintro (haj | hlong)
  · rw [hnot] at haj
    cases haj
  · obtain ⟨i, -, hs⟩ := hI.stored _ (List.getElem_mem hj)
    rcases hs.long hlong with haj | hr
    · rw [hnot] at haj
      cases haj
    · rw [hkey, hreg] at hr
      cases hr

theorem fresh_open (hI : Inv W) {c : Handed} (hc : c ∈ W.handed) (hf : c.phase = .fresh) :
    W.store.host.cell c.claim.cell < 0 ∧ ∃ n, (c.key, n) ∈ W.store.repo.streams ∧
      W.store.repo.streamOf? c.claim.resource = some n ∧
      (W.store.host.stream n).written = c.claim.offset := by
  obtain ⟨i, hi, hs⟩ := hI.stored c hc
  have hcell := hs.cell
  rw [if_pos hf] at hcell
  obtain ⟨n, hn, hw⟩ := hI.active_stream hc (by simp [hf, Phase.active])
  refine ⟨by omega, n, hn, hI.streamOf?_eq_some.2 hn, ?_⟩
  rw [hw, hs.fresh hf, Nat.add_zero]

/-- A claim already written cannot take a writer again. -/
theorem not_fresh_closed (hI : Inv W) {c : Handed} (hc : c ∈ W.handed) (hf : c.phase ≠ .fresh) :
    ¬ (W.store.host.cell c.claim.cell < 0 ∧ ∃ n, W.store.repo.streamOf? c.claim.resource = some n ∧
      (W.store.host.stream n).written = c.claim.offset) := by
  rintro ⟨hneg, n, hn, hw⟩
  obtain ⟨i, hi, hs⟩ := hI.stored c hc
  have hcell := hs.cell
  rw [if_neg hf] at hcell
  -- a negative length means at least 2 ^ 63 bytes: the claim is still being written, or its
  -- resource claim has lost its stream
  have hlong := le_of_signed64_neg (hcell ▸ hneg)
  have hreg : W.store.repo.registered c.key = true :=
    (Repo.registered_iff _ _).2 ⟨n, hI.streamOf?_eq_some.1 hn⟩
  rcases hs.long hlong with ha | hr
  · obtain ⟨n', hn', hw'⟩ := hI.active_stream hc ha
    have : n' = n := by
      have h1 := hI.streamOf?_eq_some.2 hn'
      rw [hn] at h1
      exact (Option.some.inj h1).symm
    subst this
    omega
  · rw [hreg] at hr
    cases hr

theorem cell_ne (hI : Inv W) {j k : Nat} (hj : j < W.handed.length) (hk : k < W.handed.length)
    (hjk : j ≠ k) : W.handed[j].claim.cell ≠ W.handed[k].claim.cell := by
  intro h
  have := (@List.Nodup.getElem_inj_iff _ _ hI.cells.1 j (by simpa using hj) k
    (by simpa using hk)).1 (by simpa using h)
  exact hjk this

theorem cells_set (hI : Inv W) {k : Nat} (hk : k < W.handed.length) {x : Handed}
    (hx : x.claim = W.handed[k].claim) {h : Host} (hsize : h.cells.size = W.store.host.cells.size) :
    ((W.handed.set k x).map (·.claim.cell)).Nodup ∧
      ∀ c ∈ W.handed.set k x, c.claim.cell < h.cells.size := by
  have hmap : (W.handed.set k x).map (·.claim.cell) = W.handed.map (·.claim.cell) := by
    rw [List.map_set, hx]
    apply List.ext_getElem (by simp)
    intro j h1 h2
    simp only [List.getElem_set, List.getElem_map]
    split <;> simp_all
  refine ⟨hmap ▸ hI.cells.1, fun c hc => ?_⟩
  rw [hsize]
  rcases (mem_set_iff_of_lt hk).1 hc with rfl | ⟨j, hj, -, rfl⟩
  · exact hx ▸ hI.cells.2 _ (List.getElem_mem hk)
  · exact hI.cells.2 _ (List.getElem_mem hj)

/-- Taking a writer keeps the invariant: the claim stays active, and its cell now holds the
length zero. -/
theorem take_writer (hI : Inv W) {k : Nat} (hk : k < W.handed.length)
    (hf : W.handed[k].phase = .fresh) {n : Nat} (hn : (W.handed[k].key, n) ∈ W.store.repo.streams) :
    Inv { store := { W.store with host := W.store.host.setCell W.handed[k].claim.cell 0 },
          handed := W.handed.set k
            { W.handed[k] with phase := .writing (Writer.start W.handed[k].claim n) },
          files := W.files } := by
  have hcs : W.handed[k].claim.cell < W.store.host.cells.size := hI.cells.2 _ (List.getElem_mem hk)
  have hcell := Host.cell_setCell W.store.host hcs 0
  obtain ⟨i, hi, hs⟩ := hI.stored _ (List.getElem_mem hk)
  have hsent : W.handed[k].sent.size = 0 := hs.fresh hf
  refine { hI with holders := ?holders, stored := ?stored, cells := ?cells, writer := ?writer }
  case holders =>
    intro key
    rw [countP_set_of_eq hk (by simp [hf, Phase.active, Handed.key])]
    exact hI.holders key
  case stored =>
    intro c hc
    rcases (mem_set_iff_of_lt hk).1 hc with rfl | ⟨j, hj, hjk, rfl⟩
    · refine ⟨i, hi, ?_⟩
      exact
        { fits := hs.fits
          bytes := hs.bytes
          cell := by simp [hcell, hsent, signed64_of_lt]
          fresh := fun h => Phase.noConfusion h
          last := fun _ => hs.last (.inl (by simp [hf, Phase.active]))
          long := fun _ => .inl rfl }
    · obtain ⟨i', hi', hs'⟩ := hI.stored _ (List.getElem_mem hj)
      exact ⟨i', hi', hs'.congr rfl (by simp [hcell, hI.cell_ne hj hk hjk]) rfl⟩
  case cells => exact hI.cells_set hk (by rfl) (Host.size_setCell _ _ _)
  case writer =>
    intro c hc w hw
    rcases (mem_set_iff_of_lt hk).1 hc with rfl | ⟨j, hj, -, rfl⟩
    · cases hw
      exact ⟨rfl, hn, by simp [Writer.start, hsent], rfl⟩
    · exact hI.writer _ (List.getElem_mem hj) w hw

/-- A write through the writer the caller holds keeps the invariant: the claim's bytes and its
file grow together, every other claim of that file lies before its end, and no other stream or
file changes. -/
theorem send (hI : Inv W) {k : Nat} (hk : k < W.handed.length) {w : Writer}
    (hw : W.handed[k].phase = .writing w) (bytes : ByteArray) :
    Inv { store := { W.store with host := (w.write W.store.host bytes).2.2 },
          handed := W.handed.set k ⟨W.handed[k].claim, W.handed[k].sent ++ bytes,
            .writing (w.write W.store.host bytes).2.1⟩,
          files := W.files } := by
  obtain ⟨hwc, hn, hww, hfin⟩ := hI.writer _ (List.getElem_mem hk) w hw
  obtain ⟨hopen, i, hi, hin, hwi⟩ := hI.stream_file _ _ hn
  have hilt : i < W.store.host.disk.inodes.size := (hI.numbered _ _ hi).2
  have hcs : w.claim.cell < W.store.host.cells.size := hwc ▸ hI.cells.2 _ (List.getElem_mem hk)
  have hact : W.handed[k].phase.active := by simp [hw, Phase.active]
  have hstream := Writer.stream_write bytes hfin hopen
  have hbytes := Writer.bytes_write bytes hfin hopen (hin ▸ hilt)
  have hcell := Writer.cell_write bytes hfin hopen hcs
  rw [hin] at hbytes
  rw [hwc] at hcell
  refine
    { hI with
      sound := hI.sound.of_node? (Writer.node?_write bytes hfin hopen)
      sections := ?sections
      numbered := ?numbered
      placed := ?placed
      unused := ?unused
      stream_file := ?stream_file
      pool := ?pool
      holders := ?holders
      stored := ?stored
      cells := ?cells
      writer := ?writer }
  case sections => simpa [Writer.node?_write bytes hfin hopen] using hI.sections
  case numbered => simpa [Writer.size_write bytes hfin hopen] using hI.numbered
  case placed =>
    exact fun key j hj => (hI.placed key j hj).congr rfl (Writer.node?_write bytes hfin hopen)
  case unused =>
    simpa [Writer.node?_write bytes hfin hopen, Writer.now_write bytes hfin hopen] using hI.unused
  case stream_file =>
    intro key m hm
    obtain ⟨hcl, j, hj, hjn, hjw⟩ := hI.stream_file key m hm
    by_cases hmn : m = w.stream
    · subst hmn
      obtain rfl : key = W.handed[k].key := hI.stream_inj hm hn
      obtain rfl : j = i := hI.file_unique hj hi
      exact ⟨by simp [hstream, hcl], j, hj, by simp [hstream, hjn], by simp [hstream, hbytes, hwi]⟩
    · have hji : j ≠ i := by
        rintro rfl
        exact hmn (hI.stream_unique hm (hI.files_inj _ _ _ hi hj ▸ hn))
      exact ⟨by simp [hstream, hmn, hcl], j, hj, by simp [hstream, hmn, hjn],
        by simp [hstream, hbytes, hmn, hji, hjw]⟩
  case pool =>
    intro r len hr
    obtain ⟨m, hm, hmw, hlt⟩ := hI.pool r len hr
    refine ⟨m, hm, ?_, hlt⟩
    have hmn : m ≠ w.stream := by
      rintro rfl
      have hkey := hI.stream_inj hn hm
      have := hI.not_active_of_pooled hr (List.getElem_mem hk) hkey
      rw [hact] at this
      cases this
    simp [hstream, hmn, hmw]
  case holders =>
    intro key
    rw [countP_set_of_eq hk (by simp [hw, Phase.active, Handed.key])]
    exact hI.holders key
  case stored =>
    intro c hc
    rcases (mem_set_iff_of_lt hk).1 hc with rfl | ⟨j, hj, hjk, rfl⟩
    · obtain ⟨i', hi', hs⟩ := hI.stored _ (List.getElem_mem hk)
      obtain rfl : i' = i := hI.file_unique hi' hi
      refine ⟨i', hi', hs.append hact rfl rfl (by simp) (by simp [Phase.active])
        (by simp [hbytes]) ?_⟩
      simp [hcell, hww]
    · obtain ⟨j', hj', hs⟩ := hI.stored _ (List.getElem_mem hj)
      have hcellj : W.handed[j].claim.cell ≠ W.handed[k].claim.cell := hI.cell_ne hj hk hjk
      by_cases hji : j' = i
      · subst hji
        have hkey : W.handed[j].key = W.handed[k].key := hI.files_inj _ _ _ hj' hi
        exact ⟨j', hj', hs.append_behind (b := bytes) (hI.quiet_behind hj hk hjk hact hkey) (by simp [hbytes])
          (by simp [hcell, hcellj]) rfl⟩
      · exact ⟨j', hj', hs.congr (by simp [hbytes, hji]) (by simp [hcell, hcellj]) rfl⟩
  case cells => exact hI.cells_set hk (by rfl) (Writer.cells_write bytes hfin hopen)
  case writer =>
    intro c hc w' hw'
    rcases (mem_set_iff_of_lt hk).1 hc with rfl | ⟨j, hj, -, rfl⟩
    · cases hw'
      rw [Writer.write_writer bytes hfin hopen]
      exact ⟨hwc, hn, by simp [hww], hfin⟩
    · exact hI.writer _ (List.getElem_mem hj) w' hw'

theorem countP_finish {k : Nat} (hk : k < W.handed.length) (x : Handed) (hx : x.phase.active = false)
    (key : ClaimKey) : (W.handed.set k x).countP (fun c => c.phase.active && c.key == key) + 
      (if W.handed[k].phase.active && W.handed[k].key == key then 1 else 0) =
      W.handed.countP (fun c => c.phase.active && c.key == key) := by
  rw [List.countP_set hk]
  have hle : (if W.handed[k].phase.active && W.handed[k].key == key then 1 else 0) ≤
      W.handed.countP (fun c => c.phase.active && c.key == key) := by
    split
    · exact List.countP_pos_iff.2 ⟨_, List.getElem_mem hk, by assumption⟩
    · exact Nat.zero_le _
  simp only [hx, Bool.false_and, Bool.false_eq_true, if_false, Nat.add_zero]
  omega

/-- A writer's end that returns its resource claim to the pool keeps the invariant: the pool
entry takes over from the claim as the one holder of the resource claim. -/
theorem return_to_pool (hI : Inv W) {k : Nat} (hk : k < W.handed.length) {w : Writer}
    (hw : W.handed[k].phase = .writing w) {failed : Bool}
    (hp : Action.Pools W.store w.claim.resource w.stream failed) :
    Inv { store := ((Action.completeWrite w.claim.resource w.stream failed).exec W.store).2,
          handed := W.handed.set k { W.handed[k] with phase := .done },
          files := W.files } := by
  obtain ⟨hwc, hn, -, -⟩ := hI.writer _ (List.getElem_mem hk) w hw
  obtain ⟨hopen, i, hi, -, hwi⟩ := hI.stream_file _ _ hn
  rw [Action.exec_completeWrite_of_pools _ _ hopen hp]
  have hkey : w.claim.resource.key = W.handed[k].key := by simp [Handed.key, hwc]
  have hact : W.handed[k].phase.active := by simp [hw, Phase.active]
  obtain ⟨i', hi', hs⟩ := hI.stored _ (List.getElem_mem hk)
  obtain rfl : i' = i := hI.file_unique hi' hi
  have hend := hs.last (.inl hact)
  have hlen := hp.2.1
  refine
    { hI with
      pool := ?pool
      holders := ?holders
      stored := ?stored
      cells := hI.cells_set hk (by rfl) rfl
      writer := ?writer }
  case pool =>
    intro r len hr
    rcases List.mem_append.1 hr with hr | hr
    · exact hI.pool r len hr
    · obtain ⟨rfl, rfl⟩ := List.mem_singleton.1 hr
      exact ⟨w.stream, hkey ▸ hn, rfl, hlen⟩
  case holders =>
    intro key
    have h := hI.holders key
    have hset := countP_finish hk { W.handed[k] with phase := .done } rfl key
    rw [hact, Bool.true_and] at hset
    have hpool : (W.store.repo.pool.items ++ [(w.claim.resource, (W.store.host.stream w.stream).written)]).countP
        (·.1.key == key) = W.store.repo.pool.items.countP (·.1.key == key) +
          (if W.handed[k].key == key then 1 else 0) := by
      simp [List.countP_append, hkey]
    show _ + (W.store.repo.pool.items ++ [_]).countP _ = if W.store.repo.registered key then 1 else 0
    rw [hpool]
    dsimp only at hset ⊢
    omega
  case stored =>
    intro c hc
    rcases (mem_set_iff_of_lt hk).1 hc with rfl | ⟨j, hj, -, rfl⟩
    · refine ⟨i', hi', hs.finish hw rfl rfl fun hl => ?_⟩
      -- the pool takes only resource claims shorter than the size limit, below 2 ^ 63
      have := hI.appendable
      omega
    · obtain ⟨j', hj', hs'⟩ := hI.stored _ (List.getElem_mem hj)
      exact ⟨j', hj', hs'.congr rfl rfl rfl⟩
  case writer =>
    intro c hc w' hw'
    rcases (mem_set_iff_of_lt hk).1 hc with rfl | ⟨j, hj, -, rfl⟩
    · cases hw'
    · exact hI.writer _ (List.getElem_mem hj) w' hw'

/-- A writer's end that retires its resource claim keeps the invariant: the stream closes, the
table forgets the resource claim and the tracker freezes it, so nobody holds it any more. -/
theorem retire (hI : Inv W) {k : Nat} (hk : k < W.handed.length) {w : Writer}
    (hw : W.handed[k].phase = .writing w) {failed : Bool}
    (hp : ¬ Action.Pools W.store w.claim.resource w.stream failed) :
    Inv { store := ((Action.completeWrite w.claim.resource w.stream failed).exec W.store).2,
          handed := W.handed.set k { W.handed[k] with phase := .done },
          files := W.files } := by
  obtain ⟨hwc, hn, -, -⟩ := hI.writer _ (List.getElem_mem hk) w hw
  obtain ⟨hopen, i, hi, -, -⟩ := hI.stream_file _ _ hn
  have hkey : w.claim.resource.key = W.handed[k].key := by simp [Handed.key, hwc]
  have hsn : W.store.repo.streamOf? w.claim.resource = some w.stream :=
    hI.streamOf?_eq_some.2 (hkey ▸ hn)
  rw [Action.exec_completeWrite_of_not_pools _ _ hopen hsn hp]
  dsimp only
  have hact : W.handed[k].phase.active := by simp [hw, Phase.active]
  have hreg := hI.active_registered (List.getElem_mem hk) hact
  have hwrit : (W.store.repo.tracker.record W.handed[k].key).state = .writable := by
    have := hI.writable W.handed[k].key
    rw [hreg] at this
    simpa [Lifecycle.isWritable] using this.symm
  have hreg' := Store.registered_retire W.store w.claim.resource w.stream
  rw [hkey] at hreg'
  have hrec : ∀ key, (W.store.retire w.claim.resource w.stream).repo.tracker.record key =
      if key = W.handed[k].key ∧ (W.store.repo.tracker.record W.handed[k].key).state = .writable then
        ⟨(W.store.repo.tracker.record W.handed[k].key).count, .frozen⟩
      else W.store.repo.tracker.record key := by
    rw [← hkey]
    exact Tracker.record_freeze W.store.repo.tracker w.claim.resource
  have hstream : ∀ m, (W.store.retire w.claim.resource w.stream).host.stream m =
      if m = w.stream then { W.store.host.stream w.stream with closed := true }
      else W.store.host.stream m :=
    Host.stream_close W.store.host w.stream
  have hother : ∀ j (hj : j < W.handed.length), j ≠ k → W.handed[j].phase.active →
      W.handed[j].key ≠ W.handed[k].key :=
    fun j hj hjk ha hkj => hjk (hI.active_unique hj hk ha hact hkj)
  refine
    { hI with
      streams_nodup := hI.streams_nodup.sublist ((List.filter_sublist).map _)
      writable := ?writable
      stream_file := ?stream_file
      pool := ?pool
      holders := ?holders
      stored := ?stored
      cells := hI.cells_set hk (by rfl) rfl
      writer := ?writer
      queued := ?queued }
  case writable =>
    intro key
    rw [hreg', hrec]
    by_cases hkk : key = W.handed[k].key
    · subst hkk
      simp [hwrit, Lifecycle.isWritable]
    · simp [hkk, hI.writable key]
  case stream_file =>
    intro key m hm
    obtain ⟨hm, hne⟩ := List.mem_filter.1 hm
    have hmn : m ≠ w.stream := by
      rintro rfl
      simp [hI.stream_inj hm hn, hkey] at hne
    obtain ⟨hcl, j, hj, hjn, hjw⟩ := hI.stream_file key m hm
    exact ⟨by simp [hstream, hmn, hcl], j, hj, by simp [hstream, hmn, hjn], by simp [hstream, hmn, hjw]⟩
  case pool =>
    intro r len hr
    obtain ⟨m, hm, hmw, hlt⟩ := hI.pool r len hr
    have hne : r.key ≠ W.handed[k].key := fun he => by
      have := hI.not_active_of_pooled hr (List.getElem_mem hk) he.symm
      rw [hact] at this
      cases this
    have hmn : m ≠ w.stream := fun he => hne (hI.stream_inj hm (he ▸ hn))
    exact ⟨m, List.mem_filter.2 ⟨hm, by simp [hne, hkey]⟩, by simp [hstream, hmn, hmw], hlt⟩
  case holders =>
    intro key
    have h := hI.holders key
    have hset := countP_finish hk { W.handed[k] with phase := .done } rfl key
    rw [hact, Bool.true_and] at hset
    dsimp only at hset ⊢
    rw [hreg' key, Store.pool_retire]
    by_cases hkk : W.handed[k].key = key
    · subst hkk
      have hpos : 0 < W.handed.countP (fun c => c.phase.active && c.key == W.handed[k].key) :=
        List.countP_pos_iff.2 ⟨_, List.getElem_mem hk, by simp [hact]⟩
      simp only [beq_self_eq_true, if_true, bne_self_eq_false, Bool.and_false, Bool.false_eq_true,
        if_false] at hset h ⊢
      rw [if_pos hreg] at h
      omega
    · have hkk' : (W.handed[k].key == key) = false := by simpa using hkk
      simp only [hkk', Bool.false_eq_true, if_false, Nat.add_zero] at hset
      simp only [show (key != W.handed[k].key) = true by simpa using Ne.symm hkk, Bool.and_true]
      omega
  case stored =>
    intro c hc
    rcases (mem_set_iff_of_lt hk).1 hc with rfl | ⟨j, hj, hjk, rfl⟩
    · obtain ⟨i', hi', hs⟩ := hI.stored _ (List.getElem_mem hk)
      exact ⟨i', hi', hs.finish hw rfl rfl fun _ => by simp [hreg', Handed.key]⟩
    · obtain ⟨j', hj', hs⟩ := hI.stored _ (List.getElem_mem hj)
      by_cases hkj : W.handed[j].key = W.handed[k].key
      · exact ⟨j', hj', hs.unregister rfl rfl (by simp [hreg', hkj])⟩
      · exact ⟨j', hj', hs.congr rfl rfl (by simp [hreg', hkj])⟩
  case writer =>
    intro c hc w' hw'
    rcases (mem_set_iff_of_lt hk).1 hc with rfl | ⟨j, hj, hjk, rfl⟩
    · cases hw'
    · obtain ⟨h1, h2, h3, h4⟩ := hI.writer _ (List.getElem_mem hj) w' hw'
      have hne := hother j hj hjk (by simp [hw', Phase.active])
      exact ⟨h1, List.mem_filter.2 ⟨h2, by simpa [hkey] using hne⟩, h3, h4⟩
  case queued =>
    intro x hx
    rcases Tracker.mem_queue_freeze _ _ hx with hx | rfl
    · exact hI.queued x hx
    · exact (hkey ▸ (hI.numbered _ _ hi).1).plain

theorem end_writer (hI : Inv W) {k : Nat} (hk : k < W.handed.length) {w : Writer}
    (hw : W.handed[k].phase = .writing w) (failed : Bool) :
    Inv { store := ((Action.completeWrite w.claim.resource w.stream failed).exec W.store).2,
          handed := W.handed.set k { W.handed[k] with phase := .done },
          files := W.files } := by
  by_cases hp : Action.Pools W.store w.claim.resource w.stream failed
  · exact hI.return_to_pool hk hw hp
  · exact hI.retire hk hw hp

theorem streams_completeWrite (hI : Inv W) {k : Nat} (hk : k < W.handed.length) {w : Writer}
    (hw : W.handed[k].phase = .writing w) (failed : Bool) {e : ClaimKey × Nat}
    (he : e ∈ ((Action.completeWrite w.claim.resource w.stream failed).exec W.store).2.repo.streams) :
    e ∈ W.store.repo.streams := by
  obtain ⟨hwc, hn, -, -⟩ := hI.writer _ (List.getElem_mem hk) w hw
  have hopen := (hI.stream_file _ _ hn).1
  have hkey : w.claim.resource.key = W.handed[k].key := by simp [Handed.key, hwc]
  by_cases hp : Action.Pools W.store w.claim.resource w.stream failed
  · rwa [Action.exec_completeWrite_of_pools _ _ hopen hp] at he
  · rw [Action.exec_completeWrite_of_not_pools _ _ hopen (hI.streamOf?_eq_some.2 (hkey ▸ hn)) hp]
      at he
    exact (List.mem_filter.1 he).1

end Inv

namespace World

variable {W : World}

theorem step_write_of_fresh (hI : Inv W) {k : Nat} (hk : k < W.handed.length)
    (hf : W.handed[k].phase = .fresh) :
    ∃ n, (W.handed[k].key, n) ∈ W.store.repo.streams ∧ W.step (.write k) =
      { store := { W.store with host := W.store.host.setCell W.handed[k].claim.cell 0 },
        handed := W.handed.set k { W.handed[k] with phase := .writing (Writer.start W.handed[k].claim n) },
        files := W.files } := by
  obtain ⟨hneg, n, hn, hsn, hw⟩ := hI.fresh_open (List.getElem_mem hk) hf
  refine ⟨n, hn, ?_⟩
  have hnote := hI.note_eq (s := { W.store with host := W.store.host.setCell W.handed[k].claim.cell 0 })
    fun k n h => ⟨n, h⟩
  simp [step, List.getElem?_eq_getElem hk, Action.exec_write_of_open _ _ hneg hsn hw, after, hnote]

theorem step_write_of_not_fresh (hI : Inv W) {k : Nat} (hk : k < W.handed.length)
    (hf : W.handed[k].phase ≠ .fresh) : W.step (.write k) = W := by
  obtain ⟨e, he⟩ := Action.exec_write_of_not_open W.store W.handed[k].claim
    (hI.not_fresh_closed (List.getElem_mem hk) hf)
  have hnote := hI.note_eq (s := W.store) fun k n h => ⟨n, h⟩
  simp [step, List.getElem?_eq_getElem hk, he, after, hnote]

theorem step_send_of_writing (hI : Inv W) {k : Nat} (hk : k < W.handed.length) {w : Writer}
    (hw : W.handed[k].phase = .writing w) (bytes : ByteArray) :
    W.step (.send k bytes) =
      { store := { W.store with host := (w.write W.store.host bytes).2.2 },
        handed := W.handed.set k ⟨W.handed[k].claim, W.handed[k].sent ++ bytes,
          .writing (w.write W.store.host bytes).2.1⟩,
        files := W.files } := by
  obtain ⟨-, hn, -, hfin⟩ := hI.writer _ (List.getElem_mem hk) w hw
  have hopen := (hI.stream_file _ _ hn).1
  have hget : W.handed[k]? = some ⟨W.handed[k].claim, W.handed[k].sent, .writing w⟩ := by
    rw [List.getElem?_eq_getElem hk, ← hw]
  have hnote := hI.note_eq (s := { W.store with host := (w.write W.store.host bytes).2.2 })
    fun k n h => ⟨n, h⟩
  have hres : (w.write W.store.host bytes).1 = .ok bytes.size := by
    rw [Writer.write_of_open _ _ _ hfin hopen]
  simp [step, hget, Action.exec_writeWith, hres, after, hnote]

theorem step_flush_of_writing (hI : Inv W) {k : Nat} (hk : k < W.handed.length) {w : Writer}
    (hw : W.handed[k].phase = .writing w) : W.step (.flush k) = W := by
  obtain ⟨-, hn, -, -⟩ := hI.writer _ (List.getElem_mem hk) w hw
  have hopen := (hI.stream_file _ _ hn).1
  have hget : W.handed[k]? = some ⟨W.handed[k].claim, W.handed[k].sent, .writing w⟩ := by
    rw [List.getElem?_eq_getElem hk, ← hw]
  have hset : W.handed.set k ⟨W.handed[k].claim, W.handed[k].sent, .writing w⟩ = W.handed := by
    rw [← hw]
    exact List.set_getElem_self hk
  simp [step, hget, Writer.flush, Host.flush_of_open _ hopen, hset]

/-- Ending the writer the caller holds runs the close hook; closing reports a failure only if
one happened before, aborting always does. -/
theorem step_end_of_writing (hI : Inv W) {k : Nat} (hk : k < W.handed.length) {w : Writer}
    (hw : W.handed[k].phase = .writing w) :
    W.step (.close k) =
      { store := ((Action.completeWrite w.claim.resource w.stream w.failed).exec W.store).2,
        handed := W.handed.set k { W.handed[k] with phase := .done }, files := W.files } ∧
    W.step (.abort k) =
      { store := ((Action.completeWrite w.claim.resource w.stream true).exec W.store).2,
        handed := W.handed.set k { W.handed[k] with phase := .done }, files := W.files } := by
  obtain ⟨-, hn, -, hfin⟩ := hI.writer _ (List.getElem_mem hk) w hw
  have hopen := (hI.stream_file _ _ hn).1
  have hget : W.handed[k]? = some ⟨W.handed[k].claim, W.handed[k].sent, .writing w⟩ := by
    rw [List.getElem?_eq_getElem hk, ← hw]
  have hclose : (Writer.finish w W.store.host).1 = some (.ok (), w.failed) := by
    cases hf : w.failed <;> simp [Writer.finish, hfin, hf, Host.flush_of_open _ hopen]
  have habort : (Writer.abort w W.store.host).1 = some (.ok (), true) := by
    simp [Writer.abort, Writer.finish, hfin]
  have hnote : ∀ failed, note W.files
      ((Action.completeWrite w.claim.resource w.stream failed).exec W.store).2 = W.files :=
    fun failed => hI.note_eq fun key n h => ⟨n, hI.streams_completeWrite hk hw failed h⟩
  constructor
  · simp [step, hget, Action.exec_endWriter _ _ _ hclose, after, hnote]
  · simp [step, hget, Action.exec_endWriter _ _ _ habort, after, hnote]

end World

/-! ## The writing steps keep the invariant -/

namespace Inv

variable {W : World}

theorem step_of_not_lt {k : Nat} (hk : ¬ k < W.handed.length) (st : Step)
    (hst : st = .write k ∨ (∃ b, st = .send k b) ∨ st = .flush k ∨ st = .close k ∨ st = .abort k) :
    W.step st = W := by
  have hnone : W.handed[k]? = none := List.getElem?_eq_none (Nat.le_of_not_lt hk)
  rcases hst with rfl | ⟨b, rfl⟩ | rfl | rfl | rfl <;> simp [World.step, hnone]

theorem step_write (hI : Inv W) (k : Nat) : Inv (W.step (.write k)) := by
  by_cases hk : k < W.handed.length
  · by_cases hf : W.handed[k].phase = .fresh
    · obtain ⟨n, hn, heq⟩ := World.step_write_of_fresh hI hk hf
      rw [heq]
      exact hI.take_writer hk hf hn
    · rw [World.step_write_of_not_fresh hI hk hf]
      exact hI
  · rw [step_of_not_lt hk _ (.inl rfl)]
    exact hI

theorem step_of_not_writing {k : Nat} (hk : k < W.handed.length)
    (hw : ∀ w, W.handed[k].phase ≠ .writing w) (st : Step)
    (hst : (∃ b, st = .send k b) ∨ st = .flush k ∨ st = .close k ∨ st = .abort k) :
    W.step st = W := by
  have hget : W.handed[k]? = some ⟨W.handed[k].claim, W.handed[k].sent, W.handed[k].phase⟩ :=
    List.getElem?_eq_getElem hk
  cases hph : W.handed[k].phase with
  | writing w => exact absurd hph (hw w)
  | fresh => rcases hst with ⟨b, rfl⟩ | rfl | rfl | rfl <;> simp [World.step, hget, hph]
  | done => rcases hst with ⟨b, rfl⟩ | rfl | rfl | rfl <;> simp [World.step, hget, hph]

theorem step_writer (hI : Inv W) {k : Nat} (st : Step)
    (hst : (∃ b, st = .send k b) ∨ st = .flush k ∨ st = .close k ∨ st = .abort k) :
    Inv (W.step st) := by
  by_cases hk : k < W.handed.length
  · by_cases hw : ∃ w, W.handed[k].phase = .writing w
    · obtain ⟨w, hw⟩ := hw
      rcases hst with ⟨b, rfl⟩ | rfl | rfl | rfl
      · rw [World.step_send_of_writing hI hk hw]
        exact hI.send hk hw b
      · rw [World.step_flush_of_writing hI hk hw]
        exact hI
      · rw [(World.step_end_of_writing hI hk hw).1]
        exact hI.end_writer hk hw w.failed
      · rw [(World.step_end_of_writing hI hk hw).2]
        exact hI.end_writer hk hw true
    · rw [step_of_not_writing hk (fun w h => hw ⟨w, h⟩) st hst]
      exact hI
  · rw [step_of_not_lt hk st (.inr hst)]
    exact hI

end Inv

end ClaimStore
