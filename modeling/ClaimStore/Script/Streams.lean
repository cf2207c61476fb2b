import ClaimStore.Writer
import ClaimStore.Script.Files
import ClaimStore.Script.Claims
/-!
# Stream and writer sessions

A stream session drives one content stream on a file of the scratch directory. A writer session
drives one content writer over such a stream, with a close hook that records each call's
failure flag and, when asked to, fails with `close hook failed`. A writer that is still there
when the session ends is dropped, and the answer then lists every hook call.
-/

namespace ClaimStore.Script

open ClaimStore.Text ClaimStore.FileSystem ClaimStore.Claim

/-- A failed operation on files, or done. -/
def unitAnswer : IoResult Unit → Json
  | .ok () => done
  | .error e => ioAnswer e

/-- A stream session: the host and the stream's number. -/
structure StreamSession where
  host : Host
  stream : Nat

/-- Answers one step of a stream session. -/
def streamStep (s : StreamSession) (j : Json) : Read (Json × StreamSession) := do
  let h := s.host
  let op ← text j "op"
  match fileStep h.disk h.now op j with
  | some r => let (a, d) ← r; pure (a, { s with host := { h with disk := d } })
  | none =>
  let written : Host → Json := fun h => obj [("bytes_written", .nat (h.stream s.stream).written)]
  match op with
  | "write" =>
    let bytes ← readPayload j
    pure (match h.writeAll s.stream bytes with
      | .ok h => (written h, { s with host := h })
      | .error e => (ioAnswer e, s))
  | "flush" | "sync" => pure (unitAnswer (h.flush s.stream), s)
  | "close" => pure (done, { s with host := h.close s.stream })
  | "is_closed" => pure (obj [("closed", .bool (h.stream s.stream).closed)], s)
  | "bytes_written" => pure (written h, s)
  | "debug" => pure (obj [("debug", .str (h.stream s.stream).describe)], s)
  | other => throw ("unknown step " ++ other)

/-- A stream session as an answer. -/
def streamAnswer (j : Json) : Read Json := do
  let path ← readScratchPath j "path"
  let steps ← list j "steps"
  match ← writeFiles j Disk.fresh startMillis with
  | .error e => pure (ioAnswer e)
  | .ok d =>
    match (Host.create d startMillis).openStream path with
    | .error e => pure (ioAnswer e)
    | .ok (n, h) => pure (results (runSteps streamStep ⟨h, n⟩ steps))

/-- A writer session: the host, the stream, the writer while it lasts, the hook's calls so far
(last first) and whether the hook fails. -/
structure WriterSession where
  host : Host
  stream : Nat
  writer : Option Writer
  calls : List Bool
  hookFails : Bool

namespace WriterSession

/-- Runs the close hook. -/
def hook (s : WriterSession) (failed : Bool) : IoResult Unit × WriterSession :=
  (if s.hookFails then .error (.other "close hook failed") else .ok (),
    { s with calls := failed :: s.calls })

/-- Ends the writer by `finish`; answers the outcome. -/
def finishWith (s : WriterSession) (w : Writer)
    (finish : Writer → Host → Option (IoResult Unit × Bool) × Writer) :
    IoResult Unit × WriterSession :=
  let s := { s with writer := none }
  match (finish w s.host).1 with
  | none => (.ok (), s)
  | some (flushed, failed) =>
    let (hooked, s) := s.hook failed
    (Writer.combine flushed hooked, s)

/-- The writer's claim as an answer. -/
def claimJson (s : WriterSession) (w : Writer) : Json := contentJson (s.host.content w.claim)

/-- Answers one step. -/
def step (s : WriterSession) (j : Json) : Read (Json × WriterSession) := do
  let h := s.host
  let op ← text j "op"
  match fileStep h.disk h.now op j with
  | some r => let (a, d) ← r; pure (a, { s with host := { h with disk := d } })
  | none =>
  let gone : Read (Json × WriterSession) := throw "writer is gone"
  match op with
  | "close_stream" => pure (done, { s with host := h.close s.stream })
  | "hook" => pure (obj [("calls", .arr (s.calls.reverse.map .bool))], s)
  | "stream" =>
    let st := h.stream s.stream
    pure (obj [("bytes_written", .nat st.written), ("closed", .bool st.closed)], s)
  | "write" =>
    let bytes ← readPayload j
    let some w := s.writer | gone
    let (outcome, w, h) := w.write h bytes
    let s := { s with writer := some w, host := h }
    pure (match outcome with
      | .ok n => (obj [("n", .nat n), ("bytes_written", .nat w.written),
          ("length", .int (h.cell w.claim.cell))], s)
      | .error e => (ioAnswer e, s))
  | "flush" =>
    let some w := s.writer | gone
    let (outcome, w) := w.flush h
    pure (unitAnswer outcome, { s with writer := some w })
  | "close" =>
    let some w := s.writer | gone
    let (outcome, s) := s.finishWith w Writer.finish
    pure (unitAnswer outcome, s)
  | "abort" =>
    let some w := s.writer | gone
    pure (done, (s.finishWith w Writer.abort).2)
  | "drop" =>
    let some w := s.writer | gone
    pure (done, (s.finishWith w Writer.finish).2)
  | "debug" =>
    let some w := s.writer | gone
    pure (obj [("debug", .str (w.describe h)), ("claim", s.claimJson w)], s)
  | other => throw ("unknown step " ++ other)

/-- Drops a writer that is still there. -/
def wrapUp (s : WriterSession) : WriterSession :=
  match s.writer with
  | some w => (s.finishWith w Writer.finish).2
  | none => s

end WriterSession

/-- Runs a writer session's steps, answering each and the session's end. -/
def runWriter : WriterSession → List Json → List Json × WriterSession
  | s, [] => ([], s)
  | s, j :: rest =>
    let (a, s') := match WriterSession.step s j with
      | .ok r => r
      | .error m => (badInput m, s)
    let (as, s'') := runWriter s' rest
    (a :: as, s'')

/-- A writer session as an answer. -/
def writerAnswer (j : Json) : Read Json := do
  let path ← readScratchPath j "path"
  let cj ← need j "claim"
  let r ← readResource cj
  let offset ← countOr cj "offset" 0
  let length := (← optional cj "length" asSigned).getD (-1)
  let hookFails ← flagOr j "hook_error" false
  let steps ← list j "steps"
  match ← writeFiles j Disk.fresh startMillis with
  | .error e => pure (ioAnswer e)
  | .ok d =>
    match (Host.create d startMillis).openStream path with
    | .error e => pure (ioAnswer e)
    | .ok (n, h) =>
      let (c, h) := h.adopt ⟨r, offset, length⟩
      let s : WriterSession := ⟨h, n, some (Writer.start c n), [], hookFails⟩
      let (answers, s) := runWriter s steps
      let s := s.wrapUp
      pure (obj [("results", .arr answers), ("hook_calls_at_end", .arr (s.calls.reverse.map .bool))])

end ClaimStore.Script
