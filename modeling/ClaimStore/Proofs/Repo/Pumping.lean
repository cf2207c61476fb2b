import ClaimStore.Proofs.Repo.Reading
/-!
# How a copy runs

A clone copies chunk by chunk: each read takes at most `copyChunk` bytes of the original, no
more than its limit allows, and the chunk is appended through the copy's writer, until a read
delivers nothing. Were its file not to grow, the reading would deliver the bytes between its
position and the end of the file, up to its limit (`Reading.standing`); each chunk is the first
`copyChunk` bytes of those.

When the copy appends to another file, or nothing stands ahead of the reading, every chunk
takes its bytes off the standing ones, so the copy ends having moved exactly them
(`pump_of_apart`). When it appends to the very file it reads, the bytes ahead of the reading
stay as many as they were: with a limit the copy ends having moved up to the limit, past the
bytes that stood when those were fewer (`pump_of_limit`), and with no limit every chunk is as
long as the first and the copy never ends (`pump_of_feeds`).
-/

set_option autoImplicit false

namespace ClaimStore

open ClaimStore.Claim ClaimStore.FileSystem

namespace Reading

/-- The bytes of the reading's file ahead of where it stands. -/
def ahead (r : Reading) (h : Host) : Nat := h.disk.sizeOf r.node - r.reader.position

/-- What the reading would deliver from where it stands were its file not to grow: the bytes
ahead of it, no more than its limit allows. -/
def standing (r : Reading) (h : Host) : Nat := r.reader.window (r.limit h) (r.ahead h)

/-- The most a copy that ends moves from the reading: up to its limit, or what is ahead of it
when it has none. -/
def bound (r : Reading) (h : Host) : Nat :=
  match r.limit h with
  | some l => l - r.reader.consumed
  | none => r.ahead h

/-- What a copy from the reading into the stream moves when it ends: up to the limit when it
reads the stream's own file with bytes ahead of it, and what stands ahead otherwise. -/
def copied (r : Reading) (h : Host) (stream : Nat) : Nat :=
  match r.limit h with
  | some l =>
    if r.node = .file (h.stream stream).inode ∧ 0 < r.ahead h then l - r.reader.consumed
    else r.standing h
  | none => r.standing h

/-- A copy under way from a reading of a file into a writer: the writer is open on an open
stream whose file and claim cell the host has, and the reading's limit is read from another
cell than the one the writer sets. -/
structure Copying (r : Reading) (w : Writer) (h : Host) : Prop where
  file : ∃ f, r.node = .file f
  finished : w.finished = false
  streamOpen : (h.stream w.stream).closed = false
  inode : (h.stream w.stream).inode < h.disk.inodes.size
  cell : w.claim.cell < h.cells.size
  apart : r.cell ≠ w.claim.cell

variable {r : Reading} {w : Writer} {h : Host}

theorem standing_le_bound (r : Reading) (h : Host) : r.standing h ≤ r.bound h := by
  unfold standing bound Reader.window
  cases r.limit h <;> dsimp only <;> omega

theorem feeds_eq_true (hC : Copying r w h) :
    r.feeds h w.stream = true ↔
      r.limit h = none ∧ r.node = .file (h.stream w.stream).inode ∧ 0 < r.ahead h := by
  simp only [feeds, ahead, hC.streamOpen, Bool.not_false, Bool.and_true, Bool.and_eq_true,
    beq_iff_eq, decide_eq_true_eq, Nat.sub_pos_iff_lt, and_assoc]

theorem window_chunk (r : Reading) (h : Host) :
    min (r.reader.window (r.limit h) copyChunk) (h.disk.sizeOf r.node - r.reader.position) =
      min copyChunk (r.standing h) := by
  unfold standing ahead Reader.window
  split <;> omega

theorem read_of_standing_zero {f : Nat} (hf : r.node = .file f) (h0 : r.standing h = 0) :
    ∃ bs r', r.read h copyChunk = .ok (bs, r') ∧ bs.isEmpty = true := by
  have hc := window_chunk r h
  rw [hf, Disk.sizeOf] at hc
  by_cases hw : r.reader.window (r.limit h) copyChunk = 0
  · simp only [read, hw, if_true]
    exact ⟨_, _, rfl, rfl⟩
  · simp only [read, hw, if_false, hf, Reader.read]
    refine ⟨_, _, rfl, ?_⟩
    simp only [ByteArray.isEmpty, ByteArray.size_extract, beq_iff_eq]
    omega

/-- The reading moved `n` bytes on. -/
def skip (r : Reading) (n : Nat) : Reading :=
  { r with reader := ⟨r.reader.position + n, r.reader.consumed + n⟩ }

/-- The bytes of file `f` the next chunk takes. -/
def chunk (r : Reading) (h : Host) (f : Nat) : ByteArray :=
  (h.disk.bytes f).extract r.reader.position (r.reader.position + min copyChunk (r.standing h))

@[simp] theorem node_skip (n : Nat) : (r.skip n).node = r.node := rfl
@[simp] theorem cell_skip (n : Nat) : (r.skip n).cell = r.cell := rfl

theorem size_chunk {f : Nat} (hf : r.node = .file f) :
    (r.chunk h f).size = min copyChunk (r.standing h) := by
  have hc := window_chunk r h
  rw [hf, Disk.sizeOf] at hc
  simp only [chunk, ByteArray.size_extract]
  omega

theorem read_of_standing_pos {f : Nat} (hf : r.node = .file f) (hpos : 0 < r.standing h) :
    r.read h copyChunk = .ok (r.chunk h f, r.skip (min copyChunk (r.standing h))) := by
  have hc := window_chunk r h
  have hwin : r.reader.window (r.limit h) copyChunk ≠ 0 := by
    intro h0
    rw [h0] at hc
    unfold copyChunk at hc
    omega
  rw [hf, Disk.sizeOf] at hc
  obtain ⟨node, reader, cell⟩ := r
  cases hf
  simp only [read, hwin, if_false, Reader.read, hc]
  rfl

theorem limit_write (hC : Copying r w h) (bytes : ByteArray) (n : Nat) :
    (r.skip n).limit (w.write h bytes).2.2 = r.limit h := by
  simp only [limit, cell_skip, Writer.cell_write bytes hC.finished hC.streamOpen hC.cell,
    if_neg hC.apart]

theorem Copying.write (hC : Copying r w h) (bytes : ByteArray) (n : Nat) :
    Copying (r.skip n) (w.write h bytes).2.1 (w.write h bytes).2.2 := by
  have hs := Writer.stream_write bytes hC.finished hC.streamOpen w.stream
  rw [if_pos rfl] at hs
  rw [Writer.write_writer bytes hC.finished hC.streamOpen]
  refine ⟨hC.file, hC.finished, ?_, ?_, ?_, hC.apart⟩
  · rw [hs]
    exact hC.streamOpen
  · rw [hs, Writer.size_write bytes hC.finished hC.streamOpen]
    exact hC.inode
  · rw [Writer.cells_write bytes hC.finished hC.streamOpen]
    exact hC.cell

theorem inode_write (hC : Copying r w h) (bytes : ByteArray) :
    ((w.write h bytes).2.2.stream (w.write h bytes).2.1.stream).inode = (h.stream w.stream).inode := by
  rw [Writer.write_writer bytes hC.finished hC.streamOpen,
    Writer.stream_write bytes hC.finished hC.streamOpen, if_pos rfl]

theorem ahead_write (hC : Copying r w h) {f : Nat} (hf : r.node = .file f) :
    (r.skip (r.chunk h f).size).ahead (w.write h (r.chunk h f)).2.2 =
      if f = (h.stream w.stream).inode then r.ahead h else r.ahead h - (r.chunk h f).size := by
  have hn := size_chunk hf (h := h)
  have hc := window_chunk r h
  rw [hf, Disk.sizeOf] at hc
  simp only [ahead, hf, Disk.sizeOf, skip,
    Writer.bytes_write _ hC.finished hC.streamOpen hC.inode]
  split
  · rw [ByteArray.size_append]
    omega
  · omega

theorem standing_write_apart (hC : Copying r w h) {f : Nat} (hf : r.node = .file f)
    (hg : f ≠ (h.stream w.stream).inode) :
    (r.skip (r.chunk h f).size).standing (w.write h (r.chunk h f)).2.2 =
      r.standing h - (r.chunk h f).size := by
  have ha := ahead_write hC hf
  rw [if_neg hg] at ha
  have hn := size_chunk hf (h := h)
  unfold standing at hn ⊢
  rw [limit_write hC, ha]
  unfold Reader.window at hn ⊢
  simp only [skip]
  split <;> omega

end Reading

namespace Action

open Reading

variable {r : Reading} {w : Writer} {s : Store} {f : Nat}

theorem exec_pump_stop (hf : r.node = .file f) (h0 : r.standing s.host = 0) (m fuel : Nat) :
    (pump r w m fuel).exec s = (.ok (.ok m, w), s) := by
  cases fuel with
  | zero => rfl
  | succ fuel =>
    obtain ⟨bs, r', hread, hbs⟩ := read_of_standing_zero hf h0
    simp only [pump, exec_bind, exec_host, hread, hbs, if_true, exec_pure]

theorem exec_pump_chunk (hC : Copying r w s.host) (hf : r.node = .file f)
    (hpos : 0 < r.standing s.host) (m fuel : Nat) :
    (pump r w m (fuel + 1)).exec s =
      (pump (r.skip (r.chunk s.host f).size) (w.write s.host (r.chunk s.host f)).2.1
        (m + (r.chunk s.host f).size) fuel).exec
        { s with host := (w.write s.host (r.chunk s.host f)).2.2 } := by
  have hsize := size_chunk hf (h := s.host)
  have hne : (r.chunk s.host f).isEmpty = false := by
    simp only [ByteArray.isEmpty, hsize, beq_eq_false_iff_ne]
    unfold copyChunk
    omega
  rw [hsize]
  simp only [pump, exec_bind, exec_host, read_of_standing_pos hf hpos, hne, Bool.false_eq_true,
    if_false, exec_writeWith, Writer.write_fst _ hC.finished hC.streamOpen, hsize]

/-- A copy from another file than the one it appends to, with more fuel than bytes stand ahead,
moves exactly the bytes that stood ahead when it began. -/
theorem exec_pump_apart (hC : Copying r w s.host) (hf : r.node = .file f)
    (hg : f ≠ (s.host.stream w.stream).inode) (m : Nat) {fuel : Nat}
    (hfuel : r.standing s.host < fuel) :
    ((pump r w m fuel).exec s).1 =
      .ok (.ok (m + r.standing s.host), { w with written := w.written + r.standing s.host }) := by
  -- induction on the fuel; each chunk takes its bytes off what stands ahead
  induction fuel generalizing r w s m with
  | zero => omega
  | succ fuel ih =>
    by_cases h0 : r.standing s.host = 0
    · rw [exec_pump_stop hf h0, h0]
      simp
    have hn := size_chunk hf (h := s.host)
    have hst := standing_write_apart hC hf hg
    have hg' := inode_write hC (r.chunk s.host f)
    rw [exec_pump_chunk hC hf (Nat.pos_of_ne_zero h0), ih (s := { s with host := _ }) (hC.write _ _) hf (hg'.symm ▸ hg) _
      (by rw [hst]; unfold copyChunk at hn; omega), hst,
      Writer.write_writer _ hC.finished hC.streamOpen]
    simp only [Except.ok.injEq, Prod.mk.injEq, Writer.mk.injEq, true_and, and_true]
    omega

/-- A copy from the file it appends to, under a limit, with bytes ahead of its reading and more
fuel than the limit leaves to read, reads up to the limit: every chunk it appends lies ahead of
it again. -/
theorem exec_pump_limit (hC : Copying r w s.host) (hf : r.node = .file f)
    (hg : f = (s.host.stream w.stream).inode) {l : Nat} (hl : r.limit s.host = some l)
    (hpos : 0 < r.ahead s.host) (m : Nat) {fuel : Nat} (hfuel : l - r.reader.consumed < fuel) :
    ((pump r w m fuel).exec s).1 = .ok (.ok (m + (l - r.reader.consumed)),
      { w with written := w.written + (l - r.reader.consumed) }) := by
  -- induction on the fuel; the bytes ahead stay as many, the limit comes nearer by each chunk
  induction fuel generalizing r w s m with
  | zero => omega
  | succ fuel ih =>
    have hstand : r.standing s.host = min (r.ahead s.host) (l - r.reader.consumed) := by
      simp only [standing, hl, Reader.window]
    by_cases h0 : l - r.reader.consumed = 0
    · rw [exec_pump_stop hf (by omega), h0]
      simp
    have hn := size_chunk hf (h := s.host)
    have ha := ahead_write hC hf
    rw [if_pos hg] at ha
    have hg' := inode_write hC (r.chunk s.host f)
    rw [exec_pump_chunk hC hf (by omega), ih (s := { s with host := _ }) (hC.write _ _) hf
      (hg'.symm ▸ hg) (by rw [limit_write hC, hl]) (by rw [ha]; exact hpos) _
      (by simp only [skip]; unfold copyChunk at hn; omega),
      Writer.write_writer _ hC.finished hC.streamOpen]
    simp only [skip, Except.ok.injEq, Prod.mk.injEq, Writer.mk.injEq, true_and, and_true]
    omega

/-- A copy from the file it appends to, under no limit, with bytes ahead of its reading never
runs out of them: whatever its fuel, every chunk is as long as the first. -/
theorem exec_pump_feeds (hC : Copying r w s.host) (hf : r.node = .file f)
    (hg : f = (s.host.stream w.stream).inode) (hl : r.limit s.host = none)
    (hpos : 0 < r.ahead s.host) (m fuel : Nat) :
    ((pump r w m fuel).exec s).1 = .ok (.ok (m + fuel * min copyChunk (r.ahead s.host)),
      { w with written := w.written + fuel * min copyChunk (r.ahead s.host) }) := by
  -- induction on the fuel; neither the bytes ahead nor the limit change
  induction fuel generalizing r w s m with
  | zero => simp [pump]
  | succ fuel ih =>
    have hstand : r.standing s.host = r.ahead s.host := by
      simp only [standing, hl, Reader.window]
    have hn := size_chunk hf (h := s.host)
    have ha := ahead_write hC hf
    rw [if_pos hg] at ha
    have hg' := inode_write hC (r.chunk s.host f)
    rw [exec_pump_chunk hC hf (by omega), ih (s := { s with host := _ }) (hC.write _ _) hf
      (hg'.symm ▸ hg) (by rw [limit_write hC, hl]) (by rw [ha]; exact hpos),
      Writer.write_writer _ hC.finished hC.streamOpen, ha, hn, hstand]
    simp only [Except.ok.injEq, Prod.mk.injEq, Writer.mk.injEq, true_and, and_true]
    constructor <;> rw [Nat.succ_mul] <;> omega

theorem exec_pump_standing (hC : Copying r w s.host) (hf : r.node = .file f)
    (hapart : f ≠ (s.host.stream w.stream).inode ∨ r.ahead s.host = 0) (m : Nat) {fuel : Nat}
    (hfuel : r.standing s.host < fuel) :
    ((pump r w m fuel).exec s).1 =
      .ok (.ok (m + r.standing s.host), { w with written := w.written + r.standing s.host }) := by
  rcases hapart with hg | h0
  · exact exec_pump_apart hC hf hg m hfuel
  · have hst : r.standing s.host = 0 := by
      unfold standing Reader.window
      split <;> omega
    rw [exec_pump_stop hf hst, hst]
    simp

/-- A copy that does not feed itself, given more fuel than its bound, ends having moved what
`Reading.copied` says. -/
theorem exec_pump_copied (hC : Copying r w s.host) (hf : r.node = .file f)
    (hnf : r.feeds s.host w.stream = false) (m : Nat) {fuel : Nat} (hfuel : r.bound s.host < fuel) :
    ((pump r w m fuel).exec s).1 = .ok (.ok (m + r.copied s.host w.stream),
      { w with written := w.written + r.copied s.host w.stream }) := by
  have hst := Nat.lt_of_le_of_lt (standing_le_bound r s.host) hfuel
  have hnot : r.limit s.host = none → f ≠ (s.host.stream w.stream).inode ∨ r.ahead s.host = 0 := by
    intro hl
    rcases Nat.eq_zero_or_pos (r.ahead s.host) with h0 | hpos
    · exact .inr h0
    · refine .inl fun hg => ?_
      have := (feeds_eq_true hC).2 ⟨hl, hf.trans (congrArg _ hg), hpos⟩
      rw [hnf] at this
      exact Bool.false_ne_true this
  unfold copied
  split
  · next l hl =>
    split
    · next hown =>
      have hb : r.bound s.host = l - r.reader.consumed := by simp only [bound, hl]
      exact exec_pump_limit hC hf (Node.file.inj (hf.symm.trans hown.1)) hl hown.2 m (hb ▸ hfuel)
    · next hown =>
      refine exec_pump_standing hC hf ?_ m hst
      rcases Nat.eq_zero_or_pos (r.ahead s.host) with h0 | hpos
      · exact .inr h0
      · exact .inl fun hg => hown ⟨hf.trans (congrArg _ hg), hpos⟩
  · next hl => exact exec_pump_standing hC hf (hnot hl) m hst

theorem cell_of_read {c : ClaimRef} {rd : Reading} (h : ((read c).exec s).1 = .ok rd) :
    rd.cell = c.cell := by
  unfold read at h
  rw [exec_bind] at h
  rcases hopen : (openContent c.resource).exec s with ⟨_ | n, s1⟩ <;> rw [hopen] at h
  · cases h
  · simp only [exec_bind, exec_host] at h
    split at h
    · cases h
    · cases h
      rfl

end Action

namespace Inv

variable {W : World}

theorem copying {k : Nat} (hI : Inv W) (hk : k < W.handed.length) {w : Writer}
    (hw : W.handed[k].phase = .writing w) {r : Reading} {f : Nat} (hf : r.node = .file f)
    (hcell : r.cell ≠ w.claim.cell) : r.Copying w W.store.host := by
  obtain ⟨hwc, hn, -, hfin⟩ := hI.writer _ (List.getElem_mem hk) w hw
  obtain ⟨hopen, i, hki, hin, -⟩ := hI.stream_file _ _ hn
  refine ⟨⟨f, hf⟩, hfin, hopen, ?_, ?_, hcell⟩
  · rw [hin]
    exact (hI.numbered _ _ hki).2
  · rw [hwc]
    exact hI.cells.2 _ (List.getElem_mem hk)

theorem clone_begins (hI : Inv W) (hids : W.store.repo.ids.value + 1 < 2 ^ 64)
    {lossTolerant : Bool} {copy : ClaimRef} {s1 : Store}
    (hcr : (Action.create lossTolerant).exec W.store = (.ok (.claim copy), s1))
    {w : Writer} {s2 : Store} (hw : (Action.write copy).exec s1 = (.ok w, s2)) :
    w.written = 0 ∧ w.claim = copy ∧
      Inv ⟨s2, W.handed ++ [⟨copy, .empty, .writing w⟩], World.note W.files s1⟩ := by
  have hc := hI.step_create hids lossTolerant
  simp only [World.step, hcr] at hc
  have hk : W.handed.length < (W.handed ++ [(⟨copy, .empty, .fresh⟩ : Handed)]).length := by simp
  have hget : (W.handed ++ [(⟨copy, .empty, .fresh⟩ : Handed)])[W.handed.length] =
      ⟨copy, .empty, .fresh⟩ := by simp
  obtain ⟨n, hwrite, hI1⟩ := hc.write_fresh hk (by rw [hget])
  simp only [hget, List.set_append_right _ _ (Nat.le_refl _), Nat.sub_self,
    List.set_cons_zero, World.after] at hwrite hI1
  rw [hwrite, Prod.mk.injEq, Except.ok.injEq] at hw
  obtain ⟨rfl, rfl⟩ := hw
  exact ⟨rfl, rfl, hI1⟩

/-- A copy that does not feed itself, from the writer the caller holds, with more fuel than its
bound, ends having moved what `Reading.copied` says, and closing its writer leaves the claim's
length cell holding that count. -/
theorem copy_runs_out {k : Nat} (hI : Inv W) (hk : k < W.handed.length) {w : Writer}
    (hw : W.handed[k].phase = .writing w) {rd : Reading} {f : Nat} (hf : rd.node = .file f)
    (hcell : rd.cell ≠ w.claim.cell) (hnf : rd.feeds W.store.host w.stream = false) {fuel : Nat}
    (hfuel : rd.bound W.store.host < fuel) :
    ∃ w' s', (Action.pump rd w 0 fuel).exec W.store =
        (.ok (.ok (rd.copied W.store.host w.stream), w'), s') ∧
      (Action.closeWriter w').exec s' = (.ok (),
        ((Action.completeWrite w'.claim.resource w'.stream w'.failed).exec s').2) ∧
      ((Action.completeWrite w'.claim.resource w'.stream w'.failed).exec s').2.host.cell
        W.handed[k].claim.cell = signed64 (w.written + rd.copied W.store.host w.stream) := by
  have hC := hI.copying hk hw hf hcell
  obtain ⟨res, w', x, s', hexec, hx, hxw, hI2⟩ := hI.pump hk hw rd 0 fuel
  have hrun := Action.exec_pump_copied hC hf hnf 0 hfuel
  rw [hexec, Nat.zero_add] at hrun
  simp only [Except.ok.injEq, Prod.mk.injEq] at hrun
  obtain ⟨rfl, rfl⟩ := hrun
  have hk2 : k < (W.handed.set k x).length := by simpa using hk
  have hw2 : (W.handed.set k x)[k].phase = x.phase := by simp
  rw [hxw] at hw2
  have hI3 := hI2.end_writer hk2 hw2 w.failed
  obtain ⟨i, -, hs⟩ := hI3.stored _ (List.getElem_mem (l := (W.handed.set k x).set k
    { (W.handed.set k x)[k] with phase := .done }) (n := k) (by simpa using hk))
  have hsent := (hI2.writer x (List.mem_iff_getElem.2 ⟨k, hk2, by simp⟩) _ hxw).2.2.1
  have hcellx := hs.cell
  simp only [List.getElem_set_self, reduceCtorEq, if_false, hx] at hcellx
  refine ⟨_, _, hexec, Action.exec_closeWriter hI2 hk2 hw2, ?_⟩
  rw [hcellx, ← hsent]

end Inv

/-- A clone runs its copy to the end, unless the copy feeds itself. Once the copy begins, with
the new claim's writer taken and the original opened as a file: if the reading has no limit and
bytes ahead in the very file the writer appends to, the clone answers that it never returns, and
indeed every run of the copy, whatever its fuel, moves as many chunks as it is given; otherwise
the clone returns the new claim, whose length cell holds the bytes moved: those that stood
ahead of the reading, or, on the file the copy appends to, up to the original's length. -/
theorem clone_ends_unless_feeding {W : World} (hI : Inv W) (hids : W.store.repo.ids.value + 1 < 2 ^ 64)
    {lossTolerant : Bool} {copy : ClaimRef} {s1 : Store}
    (hcr : (Action.create lossTolerant).exec W.store = (.ok (.claim copy), s1))
    {w : Writer} {s2 : Store} (hw : (Action.write copy).exec s1 = (.ok w, s2))
    {original : ClaimRef} (hcell : original.cell ≠ copy.cell)
    {rd : Reading} (hrd : ((Action.read original).exec s2).1 = .ok rd) {f : Nat}
    (hf : rd.node = .file f) :
    (rd.feeds s2.host w.stream = true →
      ((Action.clone original lossTolerant).exec W.store).1 = .ok (.endless copy rd w) ∧
      ∀ fuel, ((Action.pump rd w 0 fuel).exec s2).1 =
        .ok (.ok (fuel * min copyChunk (rd.ahead s2.host)),
          { w with written := fuel * min copyChunk (rd.ahead s2.host) })) ∧
    (rd.feeds s2.host w.stream = false →
      ((Action.clone original lossTolerant).exec W.store).1 = .ok (.claim copy) ∧
      ((Action.clone original lossTolerant).exec W.store).2.host.cell copy.cell =
        signed64 (rd.copied s2.host w.stream)) := by
  obtain ⟨hw0, hwc, hI1⟩ := hI.clone_begins hids hcr hw
  have hk1 : W.handed.length < (W.handed ++ [(⟨copy, .empty, .writing w⟩ : Handed)]).length := by
    simp
  have hw1 : (W.handed ++ [(⟨copy, .empty, .writing w⟩ : Handed)])[W.handed.length].phase =
      .writing w := by simp
  have hrc : rd.cell ≠ w.claim.cell := by
    rw [Action.cell_of_read hrd, hwc]
    exact hcell
  have hC := hI1.copying hk1 hw1 hf hrc
  unfold Action.clone Action.copyClaim
  rw [Action.exec_bind, hcr]
  dsimp only
  rw [Action.exec_bind, Action.exec_attempt, Action.exec_bind, hw]
  dsimp only
  rw [Action.exec_bind, Action.exec_attempt, Action.read_snd, hrd]
  simp only [Action.exec_bind, Action.exec_host]
  constructor
  -- the copy feeds itself: it answers so, and no fuel would see it end
  · intro hfeeds
    obtain ⟨hl, hown, hpos⟩ := (Reading.feeds_eq_true hC).1 hfeeds
    refine ⟨by simp [hfeeds], fun fuel => ?_⟩
    have hrun := Action.exec_pump_feeds hC hf (Node.file.inj (hf.symm.trans hown)) hl hpos 0 fuel
    rw [hw0, Nat.zero_add] at hrun
    exact hrun
  · intro hnf
    simp only [hnf, Bool.false_eq_true, if_false]
    generalize hb : (match rd.limit _ with | some l => l | none => _ : Nat) + 1 = fuel
    have hfuel : rd.bound s2.host < fuel := by
      rw [← hb]
      unfold Reading.bound Reading.ahead
      cases rd.limit s2.host <;> dsimp only <;> omega
    obtain ⟨w', s', hexec, hclose, hcellv⟩ := hI1.copy_runs_out hk1 hw1 hf hrc hnf hfuel
    rw [Action.exec_bind, hexec]
    dsimp only
    rw [Action.exec_bind, hclose]
    simp only [List.getElem_append_right (Nat.le_refl _), Nat.sub_self, List.getElem_cons_zero,
      hw0, Nat.zero_add] at hcellv
    exact ⟨rfl, hcellv⟩

/-! ## Cloning a pooled claim -/

/-- The pooled world once a claim of `abc` is written and closed: its resource claim is back in
the pool, and the next create hands it out again, after the three bytes. -/
def abcPooled : World :=
  pooledWorld.run [.create false, .write 0, .send 0 ⟨#[97, 98, 99]⟩, .close 0]

theorem abcPooled_reachable : Reachable abcPooled :=
  .step (.close 0) (.step (.send 0 ⟨#[97, 98, 99]⟩) (.step (.write 0) (.step (.create false)
    pooledWorld_reachable trivial fun _ => by decide +kernel) trivial nofun) trivial nofun)
    trivial nofun

/-- The claim the next create hands out: on the pooled resource claim, past its three bytes. -/
def pooledCopy : ClaimRef := ⟨⟨"default", "0", "0-1", false⟩, 3, 1⟩

/-- The store once a clone has created `pooledCopy` and taken its writer. -/
def pooledCopyStore : Store :=
  ((Action.write pooledCopy).exec ((Action.create false).exec abcPooled.store).2).2

theorem abcPooled_create :
    (Action.create false).exec abcPooled.store =
      (.ok (.claim pooledCopy), ((Action.create false).exec abcPooled.store).2) :=
  Prod.ext (by decide +kernel) rfl

theorem pooledCopy_write :
    (Action.write pooledCopy).exec ((Action.create false).exec abcPooled.store).2 =
      (.ok (Writer.start pooledCopy 0), pooledCopyStore) :=
  Prod.ext (by decide +kernel) rfl

/-- A clone of the written claim copies onto its own resource claim, from the file it appends
to, up to the claim's length: it returns the copy, three bytes long. -/
theorem clone_of_pooled_claim_returns :
    ((Action.clone firstClaim.claim false).exec abcPooled.store).1 = .ok (.claim pooledCopy) ∧
      ((Action.clone firstClaim.claim false).exec abcPooled.store).2.host.cell pooledCopy.cell =
        3 := by
  have hrd : ((Action.read firstClaim.claim).exec pooledCopyStore).1 =
      .ok ⟨.file 0, Reader.start 0, 0⟩ := by decide +kernel
  obtain ⟨hret, hcell⟩ := (clone_ends_unless_feeding abcPooled_reachable.inv (by decide +kernel)
    abcPooled_create pooledCopy_write (by decide) hrd rfl).2 (by decide +kernel)
  refine ⟨hret, ?_⟩
  rw [hcell]
  decide +kernel

/-- The written claim rebuilt with no length: its length cell, one the host never handed out,
tells none. -/
def unknownLength : ClaimRef := ⟨⟨"default", "0", "0-1", false⟩, 0, 99⟩

/-- A clone of a claim of unknown length whose resource claim is the one the pool hands the copy
never returns: the copy reads from the file it appends to, and whatever its fuel, its loop moves
three bytes a chunk and still finds three ahead. -/
theorem clone_of_unknown_length_never_returns :
    ((Action.clone unknownLength false).exec abcPooled.store).1 =
        .ok (.endless pooledCopy ⟨.file 0, Reader.start 0, 99⟩ (Writer.start pooledCopy 0)) ∧
      ∀ fuel, ((Action.pump ⟨.file 0, Reader.start 0, 99⟩ (Writer.start pooledCopy 0) 0 fuel).exec
        pooledCopyStore).1 = .ok (.ok (fuel * 3), { Writer.start pooledCopy 0 with written := fuel * 3 }) := by
  obtain ⟨-, -, hI⟩ := abcPooled_reachable.inv.clone_begins (by decide +kernel) abcPooled_create
    pooledCopy_write
  have hC := hI.copying (k := abcPooled.handed.length) (w := Writer.start pooledCopy 0) (by simp)
    (by simp) (f := 0)
    (r := ⟨.file 0, Reader.start 0, 99⟩) rfl (by decide)
  refine ⟨by decide +kernel, fun fuel => ?_⟩
  have hrun := Action.exec_pump_feeds hC rfl (by decide +kernel) (by decide +kernel)
    (by decide +kernel) 0 fuel
  have hchunk : min copyChunk ((⟨.file 0, Reader.start 0, 99⟩ : Reading).ahead pooledCopyStore.host) =
      3 := by decide +kernel
  simpa only [hchunk, Nat.zero_add, show (Writer.start pooledCopy 0).written = 0 from rfl] using hrun

end ClaimStore
