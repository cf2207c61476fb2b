import ClaimStore.Proofs.Repo.Writing
/-!
# A writer ends once

A writer's user writes and flushes, and then closes, aborts or drops it; meanwhile others may
change the host: append to the same stream, or close it from elsewhere. Each call the writer
makes on its stream then succeeds or fails. `Session` runs such a history with a close hook
given as the outcome it reports for each flag.

The close hook runs on the first end only, with a flag that is set exactly when the end is an
abort or some call on the stream failed up to and including the end's own flush; closing fails
exactly when that flush or the hook does; afterwards every write is refused with
`streamClosed`. The claim's length cell holds the total size of the writes that succeeded as
soon as one has, and until then what it held when the writer was made; the stream grows by
that total as long as no one else writes to it.

Main statement: `writer_ends_once`.
-/

set_option autoImplicit false

namespace ClaimStore.Writer

open ClaimStore.FileSystem ClaimStore.Claim

/-- What happens to a writer and its host: a call of the writer's user, or a change others make
to the host (another writer appending to the stream, the stream closed from elsewhere, ...). -/
inductive Event where
  | write (bytes : ByteArray)
  | flush
  | close
  | abort
  | drop
  | others (move : Host → Host)

/-- Whether an event ends the writer. -/
def Event.ends : Event → Bool
  | .close | .abort | .drop => true
  | _ => false

/-- A writer, its host, and the flags its close hook has been called with, in order. -/
structure Session where
  writer : Writer
  host : Host
  hooked : List Bool

/-- What an event gave back: the answer to the writer's user, and what the stream answered the
writer meanwhile (for an end, the final flush); `ok` when the stream was not asked. -/
structure Outcome where
  answer : IoResult Unit
  streamed : IoResult Unit

/-- The outcome of an event that asks nothing of the stream and answers `ok`. -/
def Outcome.quiet : Outcome := ⟨.ok (), .ok ()⟩

namespace Session

variable (hook : Bool → IoResult Unit)

/-- Ends the writer by `how` (finishing, or aborting), running the close hook on the first
end. -/
def finishWith (s : Session) (how : Writer → Host → Option (IoResult Unit × Bool) × Writer) :
    Outcome × Session :=
  match how s.writer s.host with
  | (none, w) => (.quiet, { s with writer := w })
  | (some (flushed, failed), w) =>
    (⟨combine flushed (hook failed), flushed⟩, { s with writer := w, hooked := s.hooked ++ [failed] })

/-- One event of a session, `hook` giving the close hook's outcome for each flag. Closing and
dropping both finish the writer; a drop only throws the outcome away. -/
def step (s : Session) : Event → Outcome × Session
  | .write bytes =>
    let (r, w, h) := s.writer.write s.host bytes
    let answer := r.map fun _ => ()
    (⟨answer, if s.writer.finished then .ok () else answer⟩, { s with writer := w, host := h })
  | .flush =>
    let (r, w) := s.writer.flush s.host
    (⟨r, r⟩, { s with writer := w })
  | .close | .drop => s.finishWith hook Writer.finish
  | .abort => s.finishWith hook Writer.abort
  | .others move => (.quiet, { s with host := move s.host })

/-- Runs a history of events; answers the outcome of each and the session at the end. -/
def run (s : Session) : List Event → List Outcome × Session
  | [] => ([], s)
  | e :: es =>
    let next := (s.step hook e).2.run es
    ((s.step hook e).1 :: next.1, next.2)

/-! ## One event -/

variable (s : Session)

theorem step_write_of_finished (hw : s.writer.finished = true) (bytes : ByteArray) :
    s.step hook (.write bytes) = (⟨.error .streamClosed, .ok ()⟩, s) := by
  simp [step, Writer.write, hw]
  rfl

theorem step_write_of_closed (hw : s.writer.finished = false)
    (hn : (s.host.stream s.writer.stream).closed = true) (bytes : ByteArray) :
    s.step hook (.write bytes) = (⟨.error .streamClosed, .error .streamClosed⟩,
      { s with writer := { s.writer with failed := true } }) := by
  simp [step, Writer.write, hw, Host.writeAll, hn, throw, throwThe, MonadExceptOf.throw]
  rfl

theorem step_write_of_open (hw : s.writer.finished = false)
    (hn : (s.host.stream s.writer.stream).closed = false) (bytes : ByteArray) :
    s.step hook (.write bytes) = (⟨.ok (), .ok ()⟩,
      { s with writer := { s.writer with written := s.writer.written + bytes.size },
               host := (s.writer.write s.host bytes).2.2 }) := by
  simp only [step, Writer.write_fst bytes hw hn, Writer.write_writer bytes hw hn, hw]
  rfl

theorem step_flush : s.step hook .flush =
    (⟨s.host.flush s.writer.stream, s.host.flush s.writer.stream⟩,
      { s with writer := { s.writer with
        failed := s.writer.failed || (s.host.stream s.writer.stream).closed } }) := by
  cases hn : (s.host.stream s.writer.stream).closed <;>
    simp [step, Writer.flush, Host.flush, hn, throw, throwThe, MonadExceptOf.throw, pure,
      Except.pure]

theorem step_finish_of_open (hw : s.writer.finished = false) (e : Event)
    (he : e = .close ∨ e = .drop) :
    s.step hook e =
      let flushed := if s.writer.failed then .ok () else s.host.flush s.writer.stream
      let failed := s.writer.failed || !flushed.isOk
      (⟨combine flushed (hook failed), flushed⟩,
        { s with writer := { s.writer with finished := true, failed },
                 hooked := s.hooked ++ [failed] }) := by
  have hstep : s.step hook e = s.finishWith hook Writer.finish := by
    rcases he with rfl | rfl <;> rfl
  rw [hstep]
  cases hf : s.writer.failed
  · cases hfl : s.host.flush s.writer.stream <;>
      simp [finishWith, Writer.finish, hw, hf, hfl, Except.isOk, Except.toBool]
  · simp [finishWith, Writer.finish, hw, hf]

theorem step_abort_of_open (hw : s.writer.finished = false) :
    s.step hook .abort = (⟨combine (.ok ()) (hook true), .ok ()⟩,
      { s with writer := { s.writer with finished := true, failed := true },
               hooked := s.hooked ++ [true] }) := by
  simp [step, finishWith, Writer.abort, Writer.finish, hw]

theorem step_end_of_finished (hw : s.writer.finished = true) (e : Event) (he : e.ends = true) :
    (s.step hook e).1 = .quiet ∧ (s.step hook e).2.hooked = s.hooked ∧
      (s.step hook e).2.host = s.host ∧ (s.step hook e).2.writer.finished = true ∧
      (s.step hook e).2.writer.claim = s.writer.claim ∧
      (s.step hook e).2.writer.written = s.writer.written := by
  cases e <;> simp [Event.ends] at he <;>
    simp [step, finishWith, Writer.finish, Writer.abort, hw]

theorem combine_isOk (flushed hooked : IoResult Unit) :
    (combine flushed hooked).isOk = (flushed.isOk && hooked.isOk) := by
  cases flushed <;> rfl

theorem step_open (hw : s.writer.finished = false) (e : Event) (he : e.ends = false) :
    (s.step hook e).2.writer.finished = false ∧ (s.step hook e).2.hooked = s.hooked ∧
      (s.step hook e).2.writer.failed = (s.writer.failed || !(s.step hook e).1.streamed.isOk) := by
  cases e with
  | write bytes =>
    cases hn : (s.host.stream s.writer.stream).closed
    · simp [step_write_of_open hook s hw hn, hw, Except.isOk, Except.toBool]
    · simp [step_write_of_closed hook s hw hn, hw, Except.isOk, Except.toBool]
  | flush =>
    cases hn : (s.host.stream s.writer.stream).closed <;>
      simp [step_flush, hw, hn, Host.flush, throw, throwThe, MonadExceptOf.throw, pure,
        Except.pure, Except.isOk, Except.toBool]
  | others move => simp [step, Outcome.quiet, hw, Except.isOk, Except.toBool]
  | close | abort | drop => simp [Event.ends] at he

theorem step_end_of_open (hw : s.writer.finished = false) (e : Event) (he : e.ends = true) :
    (s.step hook e).2.writer.finished = true ∧
      ∃ failed, (s.step hook e).2.hooked = s.hooked ++ [failed] ∧
        (failed = true ↔ e = .abort ∨ s.writer.failed = true ∨
          (s.step hook e).1.streamed.isOk = false) ∧
        (s.step hook e).1.answer.isOk = ((s.step hook e).1.streamed.isOk && (hook failed).isOk) := by
  cases e with
  | close | drop =>
    rw [step_finish_of_open hook s hw _ (by simp)]
    refine ⟨rfl, _, rfl, ?_, combine_isOk _ _⟩
    cases s.writer.failed <;> simp
  | abort =>
    rw [step_abort_of_open hook s hw]
    exact ⟨rfl, true, rfl, by simp, by dsimp only; exact combine_isOk _ _⟩
  | write | flush | others => simp [Event.ends] at he

theorem step_of_finished (hw : s.writer.finished = true) (e : Event) :
    (s.step hook e).2.writer.finished = true ∧ (s.step hook e).2.hooked = s.hooked := by
  by_cases he : e.ends = true
  · obtain ⟨-, hh, -, hf, -⟩ := step_end_of_finished hook s hw e he
    exact ⟨hf, hh⟩
  · cases e with
    | write bytes => simp [step_write_of_finished hook s hw, hw]
    | flush => simp [step_flush, hw]
    | others move => simp [step, hw]
    | close | abort | drop => simp [Event.ends] at he

/-! ## Histories -/

theorem run_append (s : Session) (es fs : List Event) :
    s.run hook (es ++ fs) =
      ((s.run hook es).1 ++ ((s.run hook es).2.run hook fs).1, ((s.run hook es).2.run hook fs).2) := by
  induction es generalizing s with
  | nil => rfl
  | cons e es ih => simp [run, ih]

theorem length_run (s : Session) (es : List Event) : (s.run hook es).1.length = es.length := by
  induction es generalizing s with
  | nil => rfl
  | cons e es ih => simp [run, ih]

theorem run_open (hw : s.writer.finished = false) (pre : List Event)
    (hpre : ∀ x ∈ pre, x.ends = false) :
    (s.run hook pre).2.writer.finished = false ∧ (s.run hook pre).2.hooked = s.hooked ∧
      ((s.run hook pre).2.writer.failed = true ↔
        s.writer.failed = true ∨ ∃ o ∈ (s.run hook pre).1, o.streamed.isOk = false) := by
  induction pre generalizing s with
  | nil => simp [run, hw]
  | cons e pre ih =>
    obtain ⟨hw', hh', hf'⟩ := step_open hook s hw e (hpre e List.mem_cons_self)
    obtain ⟨hw'', hh'', hf''⟩ := ih (s.step hook e).2 hw' fun x hx => hpre x (List.mem_cons_of_mem e hx)
    refine ⟨hw'', hh''.trans hh', ?_⟩
    simp only [run, hf'', hf', List.mem_cons, exists_eq_or_imp, Bool.or_eq_true, Bool.not_eq_true']
    tauto

theorem run_of_finished (hw : s.writer.finished = true) (post : List Event) :
    (s.run hook post).2.writer.finished = true ∧ (s.run hook post).2.hooked = s.hooked := by
  induction post generalizing s with
  | nil => exact ⟨hw, rfl⟩
  | cons e post ih =>
    obtain ⟨hw', hh'⟩ := step_of_finished hook s hw e
    obtain ⟨hw'', hh''⟩ := ih (s.step hook e).2 hw'
    exact ⟨hw'', hh''.trans hh'⟩

/-! ## The length cell and the stream -/

theorem finishWith_host (how : Writer → Host → Option (IoResult Unit × Bool) × Writer) :
    (s.finishWith hook how).2.host = s.host := by
  unfold finishWith
  split <;> rfl

theorem finishWith_writer (how : Writer → Host → Option (IoResult Unit × Bool) × Writer) :
    (s.finishWith hook how).2.writer = (how s.writer s.host).2 := by
  unfold finishWith
  split <;> simp_all

theorem step_claim (e : Event) :
    (s.step hook e).2.writer.claim = s.writer.claim ∧
      (s.step hook e).2.writer.stream = s.writer.stream := by
  cases e with
  | write bytes =>
    simp only [step, Writer.write]
    split
    · exact ⟨rfl, rfl⟩
    · split <;> exact ⟨rfl, rfl⟩
  | flush => simp [step_flush]
  | close | drop =>
    simp only [step, finishWith_writer, Writer.finish]
    split <;> exact ⟨rfl, rfl⟩
  | abort =>
    simp only [step, finishWith_writer, Writer.abort, Writer.finish]
    split <;> exact ⟨rfl, rfl⟩
  | others move => exact ⟨rfl, rfl⟩

end Session

/-- The size of a write its user was told succeeded. -/
def okSize : Event × Outcome → Option Nat
  | (.write bytes, o) => if o.answer.isOk then some bytes.size else none
  | _ => none

/-- Others leave a length cell where it is, holding what it held. -/
def Event.KeepsCell (cell : Nat) : Event → Prop
  | .others move => ∀ h : Host, cell < h.cells.size →
      cell < (move h).cells.size ∧ (move h).cell cell = h.cell cell
  | _ => True

/-- Others append nothing to a stream. -/
def Event.KeepsStream (n : Nat) : Event → Prop
  | .others move => ∀ h : Host, ((move h).stream n).written = (h.stream n).written
  | _ => True

theorem okSize_of_not_write {e : Event} (he : ∀ bytes, e ≠ .write bytes) (o : Outcome) :
    okSize (e, o) = none := by
  cases e with
  | write bytes => exact absurd rfl (he bytes)
  | flush | close | abort | drop | others => rfl

/-- The sizes of the writes of a history answered `ok`, in order. -/
def okSizes (evs : List Event) (outs : List Outcome) : List Nat := (evs.zip outs).filterMap okSize

@[simp] theorem okSizes_nil (outs : List Outcome) : okSizes [] outs = [] := rfl

theorem okSizes_cons (e : Event) (evs : List Event) (o : Outcome) (outs : List Outcome) :
    okSizes (e :: evs) (o :: outs) = (okSize (e, o)).toList ++ okSizes evs outs := by
  simp only [okSizes, List.zip_cons_cons, List.filterMap_cons]
  cases okSize (e, o) <;> rfl

namespace Session

variable (hook : Bool → IoResult Unit) (s : Session)

theorem step_written (e : Event) (he : ∀ bytes, e ≠ .write bytes) :
    (s.step hook e).2.writer.written = s.writer.written := by
  cases e with
  | write bytes => exact absurd rfl (he bytes)
  | flush => simp [step_flush]
  | close | drop =>
    simp only [step, finishWith_writer, Writer.finish]
    split <;> rfl
  | abort =>
    simp only [step, finishWith_writer, Writer.abort, Writer.finish]
    split <;> rfl
  | others move => rfl

theorem step_host (e : Event) (he : ∀ bytes, e ≠ .write bytes) (hother : ∀ move, e ≠ .others move) :
    (s.step hook e).2.host = s.host := by
  cases e with
  | write bytes => exact absurd rfl (he bytes)
  | others move => exact absurd rfl (hother move)
  | flush => simp [step_flush]
  | close | abort | drop => exact finishWith_host hook s _

/-- One event adds the size of a write answered `ok` to the count of bytes written and sets the
length cell to the new count; nothing else moves the cell, as long as others keep it. -/
theorem step_cell (e : Event) (hk : e.KeepsCell s.writer.claim.cell)
    (hc : s.writer.claim.cell < s.host.cells.size) :
    (s.step hook e).2.writer.written = s.writer.written + (okSize (e, (s.step hook e).1)).getD 0 ∧
      s.writer.claim.cell < (s.step hook e).2.host.cells.size ∧
      (s.step hook e).2.host.cell s.writer.claim.cell =
        if okSize (e, (s.step hook e).1) = none then s.host.cell s.writer.claim.cell
        else signed64 (s.step hook e).2.writer.written := by
  cases e with
  | write bytes =>
    by_cases hw : s.writer.finished = true
    · simp [step_write_of_finished hook s hw, okSize, Except.isOk, Except.toBool, hc]
    rw [Bool.not_eq_true] at hw
    cases hn : (s.host.stream s.writer.stream).closed
    · simp [step_write_of_open hook s hw hn, okSize, Except.isOk, Except.toBool, Writer.cells_write bytes hw hn,
        Writer.cell_write bytes hw hn hc, hc]
    · simp [step_write_of_closed hook s hw hn, okSize, Except.isOk, Except.toBool, hc]
  | others move =>
    obtain ⟨hlt, heq⟩ := hk s.host hc
    simp [step, okSize, hlt, heq]
  | flush | close | abort | drop =>
    rw [step_written hook s _ (by simp), step_host hook s _ (by simp) (by simp),
      okSize_of_not_write (by simp)]
    simp [hc]

theorem step_stream (e : Event) (hk : e.KeepsStream s.writer.stream) :
    ((s.step hook e).2.host.stream s.writer.stream).written =
      (s.host.stream s.writer.stream).written + (okSize (e, (s.step hook e).1)).getD 0 := by
  cases e with
  | write bytes =>
    by_cases hw : s.writer.finished = true
    · simp [step_write_of_finished hook s hw, okSize, Except.isOk, Except.toBool]
    rw [Bool.not_eq_true] at hw
    cases hn : (s.host.stream s.writer.stream).closed
    · simp [step_write_of_open hook s hw hn, okSize, Except.isOk, Except.toBool, Writer.stream_write bytes hw hn]
    · simp [step_write_of_closed hook s hw hn, okSize, Except.isOk, Except.toBool]
  | others move => simp [step, okSize, hk s.host]
  | flush | close | abort | drop =>
    rw [step_host hook s _ (by simp) (by simp), okSize_of_not_write (by simp)]
    rfl

/-! ## A whole history -/

/-- Over a history in which others keep the length cell, the count of bytes written grows by the
sizes of the writes answered `ok`, and from the first of them on the cell holds that count. -/
theorem run_cell (evs : List Event) (hk : ∀ x ∈ evs, x.KeepsCell s.writer.claim.cell)
    (hc : s.writer.claim.cell < s.host.cells.size) :
    (s.run hook evs).2.writer.written = s.writer.written + (okSizes evs (s.run hook evs).1).sum ∧
      s.writer.claim.cell < (s.run hook evs).2.host.cells.size ∧
      (s.run hook evs).2.host.cell s.writer.claim.cell =
        if okSizes evs (s.run hook evs).1 = [] then s.host.cell s.writer.claim.cell
        else signed64 (s.run hook evs).2.writer.written := by
  induction evs generalizing s with
  | nil => simp [run, hc]
  | cons e evs ih =>
    have hclaim := (step_claim hook s e).1
    obtain ⟨hw1, hc1, hcell1⟩ := step_cell hook s e (hk e List.mem_cons_self) hc
    obtain ⟨hw2, hc2, hcell2⟩ := ih (s.step hook e).2
      (hclaim ▸ fun x hx => hk x (List.mem_cons_of_mem e hx)) (hclaim ▸ hc1)
    rw [hclaim] at hc2 hcell2
    simp only [run, okSizes_cons]
    refine ⟨?_, hc2, ?_⟩
    · rw [hw2, hw1]
      cases okSize (e, (s.step hook e).1) <;> simp [Nat.add_assoc]
    · rw [hcell2, hcell1]
      cases okSize (e, (s.step hook e).1) with
      | none =>
        simp only [Option.toList_none, List.nil_append, if_true]
        exact if_congr Iff.rfl rfl rfl
      | some size =>
        -- with no later write answered `ok`, the count is still the one this write left
        by_cases hrest : okSizes evs ((s.step hook e).2.run hook evs).1 = []
        · simp [hrest, hw2]
        · simp [hrest]

theorem run_stream (evs : List Event) (hk : ∀ x ∈ evs, x.KeepsStream s.writer.stream) :
    ((s.run hook evs).2.host.stream s.writer.stream).written =
      (s.host.stream s.writer.stream).written + (okSizes evs (s.run hook evs).1).sum := by
  induction evs generalizing s with
  | nil => simp [run]
  | cons e evs ih =>
    have hstream := (step_claim hook s e).2
    have h1 := step_stream hook s e (hk e List.mem_cons_self)
    have h2 := ih (s.step hook e).2 (hstream ▸ fun x hx => hk x (List.mem_cons_of_mem e hx))
    rw [hstream] at h2
    simp only [run, okSizes_cons, h2, h1]
    cases okSize (e, (s.step hook e).1) <;> simp [Nat.add_assoc]

theorem run_write_of_finished (hw : s.writer.finished = true) (post : List Event) (i : Nat)
    (bytes : ByteArray) (hi : post[i]? = some (.write bytes)) :
    (s.run hook post).1[i]? = some ⟨.error .streamClosed, .ok ()⟩ := by
  induction post generalizing s i with
  | nil => simp at hi
  | cons e post ih =>
    cases i with
    | zero =>
      obtain rfl : e = .write bytes := by simpa using hi
      simp [run, step_write_of_finished hook s hw]
    | succ i =>
      simp only [run, List.getElem?_cons_succ] at hi ⊢
      exact ih (s.step hook e).2 (step_of_finished hook s hw e).1 i hi

/-- A history of an open writer up to its first end `e`: the hook runs once, with its flag set
exactly when the end aborts, the writer had failed, or a call on the stream failed up to and
including the end; the end answers an error exactly when its flush or the hook failed; and
every later write is refused. -/
theorem run_end (hw : s.writer.finished = false) (pre post : List Event) (e : Event)
    (hpre : ∀ x ∈ pre, x.ends = false) (he : e.ends = true) :
    ∃ failed, (s.run hook (pre ++ e :: post)).2.hooked = s.hooked ++ [failed] ∧
      (failed = true ↔ e = .abort ∨ s.writer.failed = true ∨
        ∃ o ∈ (s.run hook (pre ++ e :: post)).1.take (pre.length + 1), o.streamed.isOk = false) ∧
      (∃ o, (s.run hook (pre ++ e :: post)).1[pre.length]? = some o ∧
        o.answer.isOk = (o.streamed.isOk && (hook failed).isOk)) ∧
      ∀ i bytes, post[i]? = some (.write bytes) →
        (s.run hook (pre ++ e :: post)).1[pre.length + 1 + i]? = some ⟨.error .streamClosed, .ok ()⟩ := by
  -- the history splits at its first end: `pre` keeps the writer open, `e` ends it, and `post`
  -- runs on an ended writer
  set s1 := (s.run hook pre).2 with hs1
  set s2 := (s1.step hook e).2 with hs2
  obtain ⟨hw1, hh1, hf1⟩ := run_open hook s hw pre hpre
  obtain ⟨hw2, failed, hh2, hflag, hanswer⟩ := step_end_of_open hook s1 hw1 e he
  obtain ⟨-, hh3⟩ := run_of_finished hook s2 hw2 post
  have hlen : (s.run hook pre).1.length = pre.length := length_run hook s pre
  have houts : (s.run hook (pre ++ e :: post)).1 =
      (s.run hook pre).1 ++ (s1.step hook e).1 :: (s2.run hook post).1 := by
    rw [run_append]
    rfl
  have hend : (s.run hook (pre ++ e :: post)).2 = (s2.run hook post).2 := by
    rw [run_append]
    rfl
  refine ⟨failed, ?_, ?_, ⟨_, ?_, hanswer⟩, ?_⟩
  · rw [hend, hh3, hh2, hh1]
  · rw [hflag, hf1, houts, ← hlen, List.take_append]
    simp only [Nat.add_sub_cancel_left, List.take_of_length_le (Nat.le_succ _), List.take_succ_cons,
      List.take_zero, List.mem_append, List.mem_singleton]
    grind
  · rw [houts, ← hlen]
    simp
  · intro i bytes hi
    rw [houts, ← hlen, Nat.add_assoc, Nat.add_comm 1 i, List.getElem?_append_right (Nat.le_add_right _ _)]
    simpa using run_write_of_finished hook s2 hw2 post i bytes hi

end Session

/-! ## A writer ends once -/

/-- A fresh writer ends once. Over any history that ends (`pre` before the first end `e`,
anything after), the close hook runs exactly once, with its flag set exactly when the end is an
abort or a call on the stream failed, up to and including the end's own flush; the end answers
an error exactly when that flush or the hook failed; and every later write is refused with
`streamClosed`. Over any history in which others keep the claim's length cell, the cell holds
what it held when the writer was made until a write is answered `ok`, and from then on the total
size of the writes answered `ok`, as a signed 64-bit number; as long as others append nothing
to the stream, the stream grows by that total. -/
theorem writer_ends_once (hook : Bool → IoResult Unit) (c : ClaimRef) (n : Nat) (h0 : Host)
    (hc : c.cell < h0.cells.size) :
    (∀ (pre post : List Event) (e : Event), (∀ x ∈ pre, x.ends = false) → e.ends = true →
      let r := (Session.mk (Writer.start c n) h0 []).run hook (pre ++ e :: post)
      ∃ failed, r.2.hooked = [failed] ∧
        (failed = true ↔ e = .abort ∨ ∃ o ∈ r.1.take (pre.length + 1), o.streamed.isOk = false) ∧
        (∃ o, r.1[pre.length]? = some o ∧ o.answer.isOk = (o.streamed.isOk && (hook failed).isOk)) ∧
        ∀ i bytes, post[i]? = some (.write bytes) →
          r.1[pre.length + 1 + i]? = some ⟨.error .streamClosed, .ok ()⟩) ∧
    (∀ evs : List Event, (∀ x ∈ evs, x.KeepsCell c.cell) →
      let r := (Session.mk (Writer.start c n) h0 []).run hook evs
      r.2.host.cell c.cell =
        if okSizes evs r.1 = [] then h0.cell c.cell else signed64 (okSizes evs r.1).sum) ∧
    (∀ evs : List Event, (∀ x ∈ evs, x.KeepsStream n) →
      let r := (Session.mk (Writer.start c n) h0 []).run hook evs
      (r.2.host.stream n).written = (h0.stream n).written + (okSizes evs r.1).sum) := by
  refine ⟨fun pre post e hpre he => ?_, fun evs hk => ?_, fun evs hk => ?_⟩
  · obtain ⟨failed, hh, hflag, hend, hpost⟩ :=
      Session.run_end hook ⟨Writer.start c n, h0, []⟩ rfl pre post e hpre he
    exact ⟨failed, hh, by simpa [Writer.start] using hflag, hend, hpost⟩
  · obtain ⟨hw, -, hcell⟩ := Session.run_cell hook ⟨Writer.start c n, h0, []⟩ evs hk hc
    simp only [Writer.start, Nat.zero_add] at hw hcell ⊢
    rw [hcell, hw]
  · simpa [Writer.start] using Session.run_stream hook ⟨Writer.start c n, h0, []⟩ evs hk

/-- A host with one open stream, still empty, and one length cell, unknown. -/
def oneStream : Host := ⟨Disk.fresh, 0, #[⟨"0/1-1", 0, 0, false⟩], #[-1]⟩

/-- A claim on a resource of the default container, with its length in the host's first cell. -/
def firstCellClaim : ClaimRef := ⟨⟨"default", "1", "1-1", false⟩, 0, 0⟩

/-- Writing three bytes, closing and writing again: the hook runs once and the last write is
refused. -/
theorem write_close_write_hooks_once :
    firstCellClaim.cell < oneStream.cells.size ∧
      ∃ failed, ((Session.mk (Writer.start firstCellClaim 0) oneStream []).run (fun _ => .ok ())
          [.write ⟨#[1, 2, 3]⟩, .close, .write ⟨#[4]⟩]).2.hooked = [failed] ∧
        ((Session.mk (Writer.start firstCellClaim 0) oneStream []).run (fun _ => .ok ())
          [.write ⟨#[1, 2, 3]⟩, .close, .write ⟨#[4]⟩]).1[2]? = some ⟨.error .streamClosed, .ok ()⟩ := by
  have hc : firstCellClaim.cell < oneStream.cells.size := by decide
  obtain ⟨failed, hh, -, -, hpost⟩ := (writer_ends_once (fun _ => .ok ()) firstCellClaim 0 oneStream hc).1
    [.write ⟨#[1, 2, 3]⟩] [.write ⟨#[4]⟩] .close (by simp [Event.ends]) rfl
  exact ⟨hc, failed, hh, hpost 0 _ rfl⟩

/-- Until a write is answered `ok` the length cell keeps what it held: a writer on a claim of
unknown length that only flushes leaves the length unknown, not the zero bytes it wrote. -/
theorem flush_leaves_length_unknown :
    okSizes [.flush] ((Session.mk (Writer.start firstCellClaim 0) oneStream []).run
        (fun _ => .ok ()) [.flush]).1 = [] ∧
      ((Session.mk (Writer.start firstCellClaim 0) oneStream []).run
        (fun _ => .ok ()) [.flush]).2.host.cell firstCellClaim.cell = -1 := by
  decide

end ClaimStore.Writer
