import ClaimStore.Stream
/-!
# Content writers

A writer appends one content claim's bytes through a shared stream. Each write sets the claim's
length to the bytes written so far, even an empty write. A failed write or flush marks the
writer as failed. The writer ends once, by closing, aborting or being dropped: it then flushes
the stream unless something failed, and calls its close hook with whether anything failed
(aborting counts as failing). The hook is the owner's: this module answers the flag, and the
owner runs the hook and combines the outcomes, the flush's error first. After the end every
write fails with `streamClosed`.
-/

namespace ClaimStore

open ClaimStore.FileSystem ClaimStore.Claim

/-- A writer of a content claim through a stream of the host. -/
structure Writer where
  claim : ClaimRef
  stream : Nat
  written : Nat
  failed : Bool
  finished : Bool
  deriving DecidableEq, Repr

namespace Writer

/-- A new writer. -/
def start (claim : ClaimRef) (stream : Nat) : Writer := ⟨claim, stream, 0, false, false⟩

/-- One write of all of `bytes`; answers how many were written. -/
def write (w : Writer) (h : Host) (bytes : ByteArray) : IoResult Nat × Writer × Host :=
  if w.finished then (.error .streamClosed, w, h)
  else
    match h.writeAll w.stream bytes with
    | .error e => (.error e, { w with failed := true }, h)
    | .ok h =>
      let w := { w with written := w.written + bytes.size }
      (.ok bytes.size, w, h.setCell w.claim.cell (signed64 w.written))

/-- Flushes the stream. -/
def flush (w : Writer) (h : Host) : IoResult Unit × Writer :=
  match h.flush w.stream with
  | .ok () => (.ok (), w)
  | .error e => (.error e, { w with failed := true })

/-- Ends the writer. Answers, on the first end only, the flush's outcome and the flag for the
close hook. -/
def finish (w : Writer) (h : Host) : Option (IoResult Unit × Bool) × Writer :=
  if w.finished then (none, w)
  else
    let (result, failed) : IoResult Unit × Bool :=
      if w.failed then (.ok (), true)
      else match h.flush w.stream with
        | .ok () => (.ok (), false)
        | .error e => (.error e, true)
    (some (result, failed), { w with finished := true, failed })

/-- Aborting: the writer counts as failed, then ends. -/
def abort (w : Writer) (h : Host) : Option (IoResult Unit × Bool) × Writer :=
  ({ w with failed := true } : Writer).finish h

/-- The outcome of ending: the flush's error first, then the hook's. -/
def combine (flushed hooked : IoResult Unit) : IoResult Unit :=
  match flushed with
  | .error e => .error e
  | .ok () => hooked

/-- The writer as shown in sentences. -/
def describe (w : Writer) (h : Host) : String :=
  "ContentWriter \x7b claim: " ++ (h.content w.claim).describe ++ ", written: " ++
    toString w.written ++ ", failed: " ++ toString w.failed ++ " \x7d"

end Writer

end ClaimStore
