import ClaimStore.Proofs.Repo.Creating
/-!
# Copying into claims keeps the invariant

An import takes the writer of a claim not yet written, writes the source's bytes through it and
closes it, or aborts it when the source is a directory; on a claim already written, or from a
source that cannot be opened, it changes nothing. Under the invariant each part succeeds: the
stream of the claim's resource claim is open, so writing and ending the writer never fail.

A clone creates a claim the caller never sees, copies chunk by chunk into it and closes it,
or aborts it and rolls the claim back. The copy is followed in a world that holds it as one
more claim; once its writer has ended the claim is done and can be dropped from that world.
-/

set_option autoImplicit false

namespace ClaimStore

open ClaimStore.Claim ClaimStore.FileSystem

namespace Action

variable {W : World} {k : Nat} {w : Writer}

theorem completeWrite_fst (hI : Inv W) (hk : k < W.handed.length)
    (hw : W.handed[k].phase = .writing w) (failed : Bool) :
    ((completeWrite w.claim.resource w.stream failed).exec W.store).1 = .ok (.ok ()) := by
  obtain ⟨hwc, hn, -, -⟩ := hI.writer _ (List.getElem_mem hk) w hw
  have hopen := (hI.stream_file _ _ hn).1
  have hkey : w.claim.resource.key = W.handed[k].key := by simp [Handed.key, hwc]
  by_cases hp : Pools W.store w.claim.resource w.stream failed
  · rw [exec_completeWrite_of_pools _ _ hopen hp]
  · rw [exec_completeWrite_of_not_pools _ _ hopen (hI.streamOf?_eq_some.2 (hkey ▸ hn)) hp]

theorem exec_closeWriter (hI : Inv W) (hk : k < W.handed.length)
    (hw : W.handed[k].phase = .writing w) :
    (closeWriter w).exec W.store =
      (.ok (), ((completeWrite w.claim.resource w.stream w.failed).exec W.store).2) := by
  obtain ⟨-, hn, -, hfin⟩ := hI.writer _ (List.getElem_mem hk) w hw
  have hopen := (hI.stream_file _ _ hn).1
  have hclose : (Writer.finish w W.store.host).1 = some (.ok (), w.failed) := by
    cases hf : w.failed <;> simp [Writer.finish, hfin, hf, Host.flush_of_open _ hopen]
  have hres := completeWrite_fst hI hk hw w.failed
  unfold closeWriter
  rw [exec_bind, exec_endWriter _ _ _ hclose]
  rcases h : (completeWrite w.claim.resource w.stream w.failed).exec W.store with ⟨r, s⟩
  rw [h] at hres
  subst hres
  rfl

theorem exec_abortWriter (hI : Inv W) (hk : k < W.handed.length)
    (hw : W.handed[k].phase = .writing w) :
    (abortWriter w).exec W.store =
      (.ok (), ((completeWrite w.claim.resource w.stream true).exec W.store).2) := by
  obtain ⟨-, -, -, hfin⟩ := hI.writer _ (List.getElem_mem hk) w hw
  have habort : (Writer.abort w W.store.host).1 = some (.ok (), true) := by
    simp [Writer.abort, Writer.finish, hfin]
  have hres := completeWrite_fst hI hk hw true
  unfold abortWriter
  rw [exec_bind, exec_endWriter _ _ _ habort]
  rcases h : (completeWrite w.claim.resource w.stream true).exec W.store with ⟨r, s⟩
  rw [h] at hres
  subst hres
  rfl

theorem exec_abortWriter_bind {β : Type} (hI : Inv W) (hk : k < W.handed.length)
    (hw : W.handed[k].phase = .writing w) (f : Unit → Action β) :
    (abortWriter w >>= f).exec W.store = (f ()).exec ((abortWriter w).exec W.store).2 := by
  have habort := exec_abortWriter hI hk hw
  rw [exec_bind]
  rcases hx : (abortWriter w).exec W.store with ⟨r, s'⟩
  rw [hx] at habort
  rw [(Prod.mk.inj habort).1]

theorem registered_abortWriter (hI : Inv W) (hk : k < W.handed.length)
    (hw : W.handed[k].phase = .writing w) :
    ((abortWriter w).exec W.store).2.repo.registered W.handed[k].key = false := by
  obtain ⟨hwc, hn, -, -⟩ := hI.writer _ (List.getElem_mem hk) w hw
  have hopen := (hI.stream_file _ _ hn).1
  have hkey : w.claim.resource.key = W.handed[k].key := by simp [Handed.key, hwc]
  have hp : ¬ Pools W.store w.claim.resource w.stream true := fun h => Bool.noConfusion h.1
  rw [exec_abortWriter hI hk hw,
    exec_completeWrite_of_not_pools _ _ hopen (hI.streamOf?_eq_some.2 (hkey ▸ hn)) hp,
    Store.registered_retire, hkey]
  simp

theorem exec_writeAll (hI : Inv W) (hk : k < W.handed.length)
    (hw : W.handed[k].phase = .writing w) {bytes : ByteArray} (hb : bytes.isEmpty = false) :
    (writeAll w bytes).exec W.store = (.ok (.ok (), (w.write W.store.host bytes).2.1),
      { W.store with host := (w.write W.store.host bytes).2.2 }) := by
  obtain ⟨-, hn, -, hfin⟩ := hI.writer _ (List.getElem_mem hk) w hw
  have hres : (w.write W.store.host bytes).1 = .ok bytes.size := by
    rw [Writer.write_of_open _ _ _ hfin (hI.stream_file _ _ hn).1]
  simp [writeAll, hb, exec_map, exec_writeWith, hres, Except.map]

theorem disk_write (s : Store) (c : ClaimRef) : ((write c).exec s).2.host.disk = s.host.disk := by
  by_cases h : s.host.cell c.cell < 0 ∧ ∃ n, s.repo.streamOf? c.resource = some n ∧
      (s.host.stream n).written = c.offset
  · obtain ⟨hc, n, hn, he⟩ := h
    rw [exec_write_of_open s c hc hn he]
    rfl
  · obtain ⟨e, he⟩ := exec_write_of_not_open s c h
    rw [he]

theorem exec_importPath_of_file (s : Store) (c : ClaimRef) {source : String} {i : Nat}
    (hsrc : (do s.host.disk.openRead (← Disk.placeOf source) : IoResult Node) = .ok (.file i)) :
    (importPath c source).exec s = (importBytes c (s.host.disk.bytes i)).exec s := by
  have hd := disk_write s c
  unfold importPath importNode importBytes
  simp only [exec_bind, exec_host, exec_ofIo, hsrc]
  rcases h : (write c).exec s with ⟨_ | w, s1⟩
  · rfl
  · rw [h] at hd
    simp only at hd
    dsimp only
    rw [hd]

theorem exec_importPath_of_error (s : Store) (c : ClaimRef) {source : String} {e : IoError}
    (hsrc : (do s.host.disk.openRead (← Disk.placeOf source) : IoResult Node) = .error e) :
    (importPath c source).exec s = (.error (.io e), s) := by
  unfold importPath
  simp only [exec_bind, exec_host, exec_ofIo, hsrc]

theorem openContent_snd (s : Store) (c : Resource) : ((openContent c).exec s).2 = s := by
  unfold openContent
  rw [exec_bind, exec_container]
  cases s.repo.container? c.container with
  | none => rfl
  | some box =>
    simp only [exec_bind, exec_host]
    repeat' split
    all_goals rfl

theorem read_snd (s : Store) (c : ClaimRef) : ((read c).exec s).2 = s := by
  have hopen := openContent_snd s c.resource
  unfold read
  rw [exec_bind]
  rcases h : (openContent c.resource).exec s with ⟨_ | n, s1⟩
  · rw [h] at hopen
    exact hopen
  · rw [h] at hopen
    subst hopen
    simp only [exec_bind, exec_host]
    split <;> rfl

end Action

namespace Inv

variable {W : World} {k : Nat} {w : Writer}

/-- Filling the writer the caller holds with bytes and closing it keeps the invariant: the
claim ends done with the bytes appended, and the fill answers their count. -/
theorem fill (hI : Inv W) (hk : k < W.handed.length) (hw : W.handed[k].phase = .writing w)
    (bytes : ByteArray) :
    ((Action.fill w bytes).exec W.store).1 = .ok bytes.size ∧
      Inv { store := ((Action.fill w bytes).exec W.store).2,
            handed := W.handed.set k ⟨W.handed[k].claim, W.handed[k].sent ++ bytes, .done⟩,
            files := W.files } := by
  cases hb : bytes.isEmpty with
  | false =>
    have hI2 := hI.send hk hw bytes
    have hk2 : k < (W.handed.set k ⟨W.handed[k].claim, W.handed[k].sent ++ bytes,
        .writing (w.write W.store.host bytes).2.1⟩).length := by simpa using hk
    have hw2 : (W.handed.set k ⟨W.handed[k].claim, W.handed[k].sent ++ bytes,
        .writing (w.write W.store.host bytes).2.1⟩)[k].phase =
          .writing (w.write W.store.host bytes).2.1 := by simp
    have hclose := Action.exec_closeWriter hI2 hk2 hw2
    have hend := hI2.end_writer hk2 hw2 (w.write W.store.host bytes).2.1.failed
    simp only [List.getElem_set_self, List.set_set] at hend
    unfold Action.fill
    rw [Action.exec_bind, Action.exec_writeAll hI hk hw hb]
    dsimp only
    rw [Action.exec_bind, hclose]
    exact ⟨rfl, hend⟩
  | true =>
    have hnil : bytes = ByteArray.empty :=
      ByteArray.size_eq_zero_iff.1 (by simpa [ByteArray.isEmpty] using hb)
    subst hnil
    have hend := hI.end_writer hk hw w.failed
    unfold Action.fill
    simp only [Action.writeAll, hb, ite_true, Action.exec_bind, Action.exec_pure]
    rw [Action.exec_closeWriter hI hk hw, ByteArray.append_empty]
    exact ⟨rfl, hend⟩

theorem abort (hI : Inv W) (hk : k < W.handed.length) (hw : W.handed[k].phase = .writing w) :
    Inv { store := ((Action.abortWriter w).exec W.store).2,
          handed := W.handed.set k { W.handed[k] with phase := .done },
          files := W.files } := by
  rw [Action.exec_abortWriter hI hk hw]
  exact hI.end_writer hk hw true

theorem write_fresh (hI : Inv W) (hk : k < W.handed.length) (hf : W.handed[k].phase = .fresh) :
    ∃ n, (Action.write W.handed[k].claim).exec W.store =
        (.ok (Writer.start W.handed[k].claim n),
          { W.store with host := W.store.host.setCell W.handed[k].claim.cell 0 }) ∧
      Inv { store := { W.store with host := W.store.host.setCell W.handed[k].claim.cell 0 },
            handed := W.handed.set k
              { W.handed[k] with phase := .writing (Writer.start W.handed[k].claim n) },
            files := W.files } := by
  obtain ⟨hneg, n, hn, hsn, hwr⟩ := hI.fresh_open (List.getElem_mem hk) hf
  exact ⟨n, Action.exec_write_of_open _ _ hneg hsn hwr, hI.take_writer hk hf hn⟩

/-- Moving chunks into the writer the caller holds keeps the invariant: every write goes
through, so the claim keeps a writer whatever the reads answer. -/
theorem pump (hI : Inv W) (hk : k < W.handed.length) (hw : W.handed[k].phase = .writing w)
    (r : Reading) (moved fuel : Nat) :
    ∃ res w' x s', (Action.pump r w moved fuel).exec W.store = (.ok (res, w'), s') ∧
      x.claim = W.handed[k].claim ∧ x.phase = .writing w' ∧
      Inv { store := s', handed := W.handed.set k x, files := W.files } := by
  induction fuel generalizing W w r moved with
  | zero => exact ⟨_, w, W.handed[k], W.store, rfl, rfl, hw, by rwa [List.set_getElem_self]⟩
  | succ fuel ih =>
    have hstay : Inv { store := W.store, handed := W.handed.set k W.handed[k], files := W.files } := by
      rwa [List.set_getElem_self]
    simp only [Action.pump, Action.exec_bind, Action.exec_host]
    rcases hread : r.read W.store.host copyChunk with e | ⟨bs, r'⟩
    · exact ⟨_, w, W.handed[k], W.store, rfl, rfl, hw, hstay⟩
    · cases hb : bs.isEmpty with
      | true =>
        simp only [hb, if_true, Action.exec_pure]
        exact ⟨_, w, W.handed[k], W.store, rfl, rfl, hw, hstay⟩
      | false =>
        obtain ⟨-, hn, -, hfin⟩ := hI.writer _ (List.getElem_mem hk) w hw
        have hres : (w.write W.store.host bs).1 = .ok bs.size := by
          rw [Writer.write_of_open _ _ _ hfin (hI.stream_file _ _ hn).1]
        have hI2 := hI.send hk hw bs
        obtain ⟨res, w', x, s', hexec, hx, hxw, hI3⟩ :=
          ih hI2 (w := (w.write W.store.host bs).2.1) (by simpa using hk) (by simp) r' (moved + bs.size)
        rw [List.set_set] at hI3
        refine ⟨res, w', x, s', ?_, by simpa using hx, hxw, hI3⟩
        simp only [hb, Bool.false_eq_true, if_false, Action.exec_bind, Action.exec_writeWith, hres]
        exact hexec

/-- Copying into a claim not yet written keeps the invariant: its writer is taken, filled chunk
by chunk and closed, or aborted when reading fails, so the claim ends done either way. A copy
that failed leaves the claim's resource claim without a stream. A copy that feeds itself never
ends, and answers so. -/
theorem copy (hI : Inv W) (hk : k < W.handed.length) (hf : W.handed[k].phase = .fresh)
    (original : ClaimRef) :
    (∃ r w, ((Action.copyClaim original W.handed[k].claim).exec W.store).1 = .ok (.endless r w)) ∨
    ∃ x : Handed, x.phase = .done ∧
      Inv { store := ((Action.copyClaim original W.handed[k].claim).exec W.store).2,
            handed := W.handed.set k x, files := W.files } ∧
      (((Action.copyClaim original W.handed[k].claim).exec W.store).1 = .ok .done ∨
        ((Action.copyClaim original W.handed[k].claim).exec W.store).2.repo.registered
          W.handed[k].key = false) := by
  obtain ⟨n, hwrite, hI1⟩ := hI.write_fresh hk hf
  have hk1 : k < (W.handed.set k { W.handed[k] with
      phase := .writing (Writer.start W.handed[k].claim n) }).length := by simpa using hk
  have hw1 : (W.handed.set k { W.handed[k] with
      phase := .writing (Writer.start W.handed[k].claim n) })[k].phase =
        .writing (Writer.start W.handed[k].claim n) := by simp
  unfold Action.copyClaim
  rw [Action.exec_bind, hwrite]
  dsimp only
  rw [Action.exec_bind, Action.exec_attempt, Action.read_snd]
  cases (Action.read original).exec
      { W.store with host := W.store.host.setCell W.handed[k].claim.cell 0 } |>.1 with
  | error e =>
    have hI2 := hI1.abort hk1 hw1
    have hreg := Action.registered_abortWriter hI1 hk1 hw1
    simp only [List.getElem_set_self, List.set_set] at hI2 hreg
    dsimp only
    rw [Action.exec_abortWriter_bind hI1 hk1 hw1]
    exact .inr ⟨_, rfl, hI2, .inr hreg⟩
  | ok rd =>
    simp only [Action.exec_bind, Action.exec_host]
    split
    -- the copy feeds itself: it answers so and goes on
    · exact .inl ⟨rd, _, rfl⟩
    refine .inr ?_
    generalize (_ : Nat) + 1 = fuel
    obtain ⟨res, w', x, s', hexec, hx, hxw, hI2⟩ := hI1.pump hk1 hw1 rd 0 fuel
    have hxk : x.key = W.handed[k].key := by simp [Handed.key, hx]
    rw [List.set_set] at hI2
    have hk2 : k < (W.handed.set k x).length := by simpa using hk
    have hw2 : (W.handed.set k x)[k].phase = .writing w' := by simpa using hxw
    rw [Action.exec_bind, hexec]
    cases res with
    | error e =>
      have hI3 := hI2.abort hk2 hw2
      have hreg := Action.registered_abortWriter hI2 hk2 hw2
      simp only [List.getElem_set_self, List.set_set, hxk] at hI3 hreg
      dsimp only
      rw [Action.exec_abortWriter_bind hI2 hk2 hw2]
      exact ⟨_, rfl, hI3, .inr hreg⟩
    | ok m =>
      have hI3 := hI2.end_writer hk2 hw2 w'.failed
      simp only [List.getElem_set_self, List.set_set] at hI3
      dsimp only
      rw [Action.exec_bind, Action.exec_closeWriter hI2 hk2 hw2]
      exact ⟨_, rfl, hI3, .inl rfl⟩

theorem import_fresh (hI : Inv W) (hk : k < W.handed.length) (hf : W.handed[k].phase = .fresh)
    (bytes : ByteArray) : ∃ s, (Action.importBytes W.handed[k].claim bytes).exec W.store =
      (.ok bytes.size, s) ∧
        Inv { store := s
              handed := W.handed.set k ⟨W.handed[k].claim, bytes, .done⟩
              files := W.files } := by
  have hsent : W.handed[k].sent = ByteArray.empty :=
    ByteArray.size_eq_zero_iff.1 ((hI.stored_unique (List.getElem_mem hk)
      (hI.stored _ (List.getElem_mem hk)).choose_spec.1).fresh hf)
  obtain ⟨n, hwrite, hI1⟩ := hI.write_fresh hk hf
  obtain ⟨hout, hI3⟩ := hI1.fill (w := Writer.start W.handed[k].claim n) (by simpa using hk)
    (by simp) bytes
  simp only [List.getElem_set_self, List.set_set, hsent, ByteArray.empty_append] at hout hI3
  refine ⟨_, ?_, hI3⟩
  unfold Action.importBytes
  rw [Action.exec_bind, hwrite]
  exact Prod.ext hout rfl

theorem imported_after (hk : k < W.handed.length) {outcome : Except StoreError Nat} {s : Store}
    {bytes : ByteArray} {x : Handed}
    (hI : Inv { store := s, handed := W.handed.set k x, files := W.files })
    (hx : World.imported W.handed[k] outcome s bytes = x) :
    Inv { W.after s with handed := W.handed.set k (World.imported W.handed[k] outcome s bytes) } := by
  rw [hx, World.after, hI.note_eq (s := s) fun _ n h => ⟨n, h⟩]
  exact hI

theorem imported_error (hI : Inv W) (hk : k < W.handed.length) (e : StoreError) (bytes : ByteArray) :
    World.imported W.handed[k] (.error e) W.store bytes = W.handed[k] := by
  unfold World.imported
  rw [if_neg]
  rintro ⟨hf, hcell⟩
  obtain ⟨i, -, hs⟩ := hI.stored _ (List.getElem_mem hk)
  have := hs.cell
  rw [if_pos hf] at this
  omega

theorem step_importBytes (hI : Inv W) (k : Nat) (bytes : ByteArray) :
    Inv (W.step (.importBytes k bytes)) := by
  by_cases hk : k < W.handed.length
  · have hget : W.handed[k]? = some W.handed[k] := List.getElem?_eq_getElem hk
    simp only [World.step, hget]
    by_cases hf : W.handed[k].phase = .fresh
    · obtain ⟨s, hexec, hI3⟩ := hI.import_fresh hk hf bytes
      rw [hexec]
      exact imported_after hk hI3 rfl
    · obtain ⟨e, he⟩ := Action.exec_write_of_not_open W.store W.handed[k].claim
        (hI.not_fresh_closed (List.getElem_mem hk) hf)
      rw [Action.importBytes, Action.exec_bind_error _ he]
      refine imported_after hk ?_ (imported_error hI hk e bytes)
      rw [List.set_getElem_self]
      exact hI
  · simp only [World.step, List.getElem?_eq_none (Nat.le_of_not_lt hk)]
    exact hI

/-- Importing a file keeps the invariant: a file's bytes are imported as bytes are, a directory
aborts the claim's writer, and a source that cannot be opened changes nothing. -/
theorem step_importPath (hI : Inv W) (k : Nat) (source : String) :
    Inv (W.step (.importPath k source)) := by
  by_cases hk : k < W.handed.length
  · have hget : W.handed[k]? = some W.handed[k] := List.getElem?_eq_getElem hk
    simp only [World.step, hget]
    -- a claim already written takes no writer, whatever the source
    have hwritten : W.handed[k].phase ≠ .fresh → ∀ e s, World.imported W.handed[k] (.error e)
        W.store s = W.handed[k] → Inv { W.after W.store with
          handed := W.handed.set k (World.imported W.handed[k] (.error e) W.store s) } :=
      fun _ e s hx => imported_after hk (by rw [List.set_getElem_self]; exact hI) hx
    rcases hsrc : (do W.store.host.disk.openRead (← Disk.placeOf source) : IoResult Node) with
      e | node
    · rw [Action.exec_importPath_of_error _ _ hsrc]
      refine imported_after hk ?_ (imported_error hI hk _ _)
      rw [List.set_getElem_self]
      exact hI
    · cases node with
      | file i =>
        have hbytes : World.sourceBytes W.store.host.disk source = W.store.host.disk.bytes i := by
          simp [World.sourceBytes, hsrc]
        rw [Action.exec_importPath_of_file _ _ hsrc, hbytes]
        by_cases hf : W.handed[k].phase = .fresh
        · obtain ⟨s, hexec, hI3⟩ := hI.import_fresh hk hf (W.store.host.disk.bytes i)
          rw [hexec]
          exact imported_after hk hI3 rfl
        · obtain ⟨e, he⟩ := Action.exec_write_of_not_open W.store W.handed[k].claim
            (hI.not_fresh_closed (List.getElem_mem hk) hf)
          rw [Action.importBytes, Action.exec_bind_error _ he]
          exact hwritten hf e _ (imported_error hI hk e _)
      | dir =>
        by_cases hf : W.handed[k].phase = .fresh
        · have hsent : W.handed[k].sent.size = 0 :=
            (hI.stored_unique (List.getElem_mem hk)
              (hI.stored _ (List.getElem_mem hk)).choose_spec.1).fresh hf
          obtain ⟨n, hwrite, hI1⟩ := hI.write_fresh hk hf
          have hk1 : k < (W.handed.set k { W.handed[k] with
              phase := .writing (Writer.start W.handed[k].claim n) }).length := by simpa using hk
          have hw1 : (W.handed.set k { W.handed[k] with
              phase := .writing (Writer.start W.handed[k].claim n) })[k].phase =
                .writing (Writer.start W.handed[k].claim n) := by simp
          have hI2 := hI1.abort hk1 hw1
          have hexec : (Action.importPath W.handed[k].claim source).exec W.store =
              (.error (.io .isADirectory), ((Action.abortWriter (Writer.start W.handed[k].claim n)).exec
                { W.store with host := W.store.host.setCell W.handed[k].claim.cell 0 }).2) := by
            unfold Action.importPath Action.importNode
            simp only [Action.exec_bind, Action.exec_host, Action.exec_ofIo, hsrc]
            rw [hwrite]
            dsimp only
            rw [Action.exec_abortWriter hI1 hk1 hw1]
            rfl
          simp only [List.getElem_set_self, List.set_set] at hI2
          rw [hexec]
          refine imported_after hk hI2 (if_pos ⟨hf, ?_⟩)
          -- the length cell of the aborted claim holds the count of its bytes, none
          obtain ⟨i, -, hs⟩ := hI2.stored _ (List.getElem_mem (l := W.handed.set k
            { W.handed[k] with phase := .done }) (n := k) (by simpa using hk))
          have hcell := hs.cell
          simp only [List.getElem_set_self, reduceCtorEq, if_false, hsent] at hcell
          rw [hcell]
          decide
        · obtain ⟨e, he⟩ := Action.exec_write_of_not_open W.store W.handed[k].claim
            (hI.not_fresh_closed (List.getElem_mem hk) hf)
          have hexec : (Action.importPath W.handed[k].claim source).exec W.store =
              (.error e, W.store) := by
            unfold Action.importPath Action.importNode
            simp only [Action.exec_bind, Action.exec_host, Action.exec_ofIo, hsrc]
            rw [he]
          rw [hexec]
          exact hwritten hf e _ (imported_error hI hk e _)
  · simp only [World.step, List.getElem?_eq_none (Nat.le_of_not_lt hk)]
    exact hI

end Inv

end ClaimStore
