import ClaimStore.Repo.Reclaim
/-!
# Copying into claims

An import writes a source's bytes into a claim not yet written, through a writer that is closed
at the end; a source that cannot be read aborts the writer. A file source is opened before the
claim is.

A clone creates a claim and copies another claim's bytes into it chunk by chunk, each chunk read
after the previous one was written, so a copy that appends to the very file it reads from sees
its own bytes. When anything fails after the creation, the new claim is rolled back: retired and
frozen while writable, released by its claimant, and removed when nothing else uses it.

A copy whose reading has no limit and reads, with bytes still ahead of it, the file its writer
appends to never ends: every chunk it moves lies ahead of it again. Such a clone does not
return (`Cloned.endless`); it goes on until its writer fails, as it does once the repository is
shut down (`resumeClone`).
-/

namespace ClaimStore

open ClaimStore.Claim ClaimStore.FileSystem

/-- Bytes moved per read while copying. -/
def copyChunk : Nat := 8192

/-- What a copy into a claim ends in. -/
inductive Copied where
  /-- Every byte was moved and the writer closed. -/
  | done
  /-- The copy feeds itself and never ends; its reading and its writer go on. -/
  | endless (r : Reading) (w : Writer)
  deriving DecidableEq, Repr

/-- What a clone call ends in. -/
inductive Cloned where
  | claim (c : ClaimRef)
  /-- Every container is under back-pressure; the call waits. -/
  | blocked
  /-- The copy into `copy` feeds itself; the call does not return. -/
  | endless (copy : ClaimRef) (r : Reading) (w : Writer)
  deriving DecidableEq, Repr

namespace Action

/-- Aborts a writer; its outcome is not needed. -/
def abortWriter (w : Writer) : Action Unit := do
  let _ ← endWriter w Writer.abort

/-- Closes a writer, failing as `io`. -/
def closeWriter (w : Writer) : Action Unit := do
  ofIo (← endWriter w Writer.finish)

/-- Writes all of `bytes` through a writer; nothing is written, not even an empty write, when
there are no bytes. -/
def writeAll (w : Writer) (bytes : ByteArray) : Action (IoResult Unit × Writer) := do
  if bytes.isEmpty then return (.ok (), w)
  let (r, w) ← writeWith w bytes
  pure (r.map fun _ => (), w)

/-- Copies bytes into a writer and closes it; a failed write aborts the writer. Answers the
bytes copied. -/
def fill (w : Writer) (bytes : ByteArray) : Action Nat := do
  match ← writeAll w bytes with
  | (.error e, w) =>
    abortWriter w
    throw (.io e)
  | (.ok (), w) =>
    closeWriter w
    pure bytes.size

/-- Writes bytes into a claim not yet written; answers the bytes copied. -/
def importBytes (c : ClaimRef) (bytes : ByteArray) : Action Nat := do
  fill (← write c) bytes

/-- Writes what an open source holds into a claim not yet written; answers the bytes copied. A
directory cannot be read. -/
def importNode (c : ClaimRef) (source : Node) : Action Nat := do
  let w ← write c
  match source with
  | .dir =>
    abortWriter w
    throw (.io .isADirectory)
  | .file i => fill w ((← host).disk.bytes i)

/-- Writes a file's bytes into a claim not yet written; answers the bytes copied. -/
def importPath (c : ClaimRef) (source : String) : Action Nat := do
  let d := (← host).disk
  importNode c (← ofIo (do d.openRead (← Disk.placeOf source)))

/-- Moves chunks from a reading into a writer until a read delivers nothing, at most `fuel`
chunks; answers the bytes moved, or the first failure. -/
def pump (r : Reading) (w : Writer) (moved : Nat) : Nat → Action (IoResult Nat × Writer)
  | 0 => pure (.ok moved, w)
  | fuel + 1 => do
    match r.read (← host) copyChunk with
    | .error e => pure (.error e, w)
    | .ok (bs, r) =>
      if bs.isEmpty then return (.ok moved, w)
      match ← writeWith w bs with
      | (.error e, w) => pure (.error e, w)
      | (.ok _, w) => pump r w (moved + bs.size) fuel

/-- Copies a claim's bytes into a claim not yet written. Each chunk moves at least one byte,
and a reading ends at the claim's length or, while that is unknown, at the end of a file that
only grows when the copy feeds itself, so the fuel covers every chunk of a copy that ends. -/
def copyClaim (original copy : ClaimRef) : Action Copied := do
  let w ← write copy
  match ← attempt (read original) with
  | .error e =>
    abortWriter w
    throw e
  | .ok r =>
    let h ← host
    if r.feeds h w.stream then return .endless r w
    let bound := match r.limit h with
      | some l => l
      | none => h.disk.sizeOf r.node
    match ← pump r w 0 (bound + 1) with
    | (.error e, w) =>
      abortWriter w
      throw (.io e)
    | (.ok _, w) =>
      closeWriter w
      pure .done

/-- Rolls back a claim whose copy failed. -/
def rollback (c : ClaimRef) : Action Unit := do
  let res := c.resource
  if ((← repo).tracker.state res).isWritable then
    retireStream res none
    let _ ← tracking (·.freeze res)
  let _ ← tracking (·.decrement res)
  let _ ← attempt (removeResource res)

/-- Copies a claim into a new claim. -/
def clone (original : ClaimRef) (lossTolerant : Bool) : Action Cloned := do
  match ← create lossTolerant with
  | .blocked => pure .blocked
  | .claim copy =>
    match ← attempt (copyClaim original copy) with
    | .ok .done => pure (.claim copy)
    | .ok (.endless r w) => pure (.endless copy r w)
    | .error e =>
      rollback copy
      throw e

/-- Lets an endless clone take its next chunk. Once the repository is shut down its writer
fails there: the writer is aborted and the clone rolled back. -/
def resumeClone (copy : ClaimRef) (r : Reading) (w : Writer) : Action Unit := do
  let step : Action Unit := do
    match ← pump r w 0 1 with
    | (.error e, w) =>
      abortWriter w
      throw (.io e)
    | (.ok _, w) => closeWriter w
  match ← attempt step with
  | .ok () => pure ()
  | .error e =>
    rollback copy
    throw e

end Action

end ClaimStore
