import ClaimStore.Repo.Basic
import ClaimStore.Writer
/-!
# Creating and writing claims

`create` hands out a content claim. It first takes resource claims from the pool: one whose
stream is still open and which is still writable is reused at its current length, with one
more claimant; any other is retired and frozen. Otherwise it numbers a new claim, picks a
container round-robin from the number, skipping containers under back-pressure, and opens a
stream on the claim's new file. When every container is under back-pressure the call would wait
for archived data to be deleted: that outcome is `Created.blocked`.

`write` hands out a writer for a claim that has not been written, at the end of its resource
claim's file. When the writer ends, `completeWrite` returns a resource claim that may still be
appended to (no failure, below the size limit, still registered and writable, room in the pool)
to the pool, and otherwise retires its stream and freezes it.
-/

namespace ClaimStore

open ClaimStore.Claim ClaimStore.Config ClaimStore.FileSystem

/-- What a create call ends in. -/
inductive Created where
  | claim (c : ClaimRef)
  /-- Every container is under back-pressure; the call waits. -/
  | blocked
  deriving DecidableEq, Repr

namespace Action

/-- Closes a claim's stream and forgets it. With `expected`, the table entry is only removed
when it is that stream, and the expected stream is closed either way. -/
def retireStream (c : Resource) (expected : Option Nat) : Action Unit := do
  let current := (← repo).streamOf? c
  let removed := match current, expected with
    | some cur, some exp => if cur == exp then some cur else none
    | some cur, none => some cur
    | none, _ => none
  if removed.isSome then
    modifyRepo fun r => { r with streams := r.streams.filter (·.1 != c.key) }
  match removed <|> expected with
  | some n => modifyHost (·.close n)
  | none => pure ()

/-- Closes every stream and empties the pool. -/
def closeAllStreams : Action Unit := do
  let streams := (← repo).streams
  modifyHost fun h => streams.foldl (fun h (_, n) => h.close n) h
  modifyRepo fun r => { r with streams := [], pool := r.pool.clear }

/-- Shuts the repository down: creation stops, waiting creators are released, the background
work stops and every stream is closed. A second shutdown does nothing. -/
def shutdown : Action Unit := do
  if (← repo).shutDown then return
  modifyRepo fun r =>
    { r with shutDown := true, background := none,
             containers := r.containers.map fun c => { c with gate := c.gate.releaseAll } }
  closeAllStreams

/-- A content claim at an offset with a length cell of its own, unknown. -/
def newClaim (c : Resource) (offset : Nat) : Action ClaimRef := do
  let (n, h) := (← host).newCell (-1)
  set { (← get) with host := h }
  pure ⟨c, offset, n⟩

/-- Takes a reusable resource claim from the pool, retiring and freezing the others met. -/
def takePooled : Nat → Action (Option (Resource × Nat))
  | 0 => pure none
  | fuel + 1 => do
    let r ← repo
    match r.pool.poll with
    | (none, _) => pure none
    | (some (c, len), q) =>
      modifyRepo fun r => { r with pool := q }
      if (r.streamOf? c).isSome && (r.tracker.state c).isWritable then
        let _ ← tracking (·.increment c false)
        pure (some (c, len))
      else
        retireStream c none
        let _ ← tracking (·.freeze c)
        takePooled fuel

/-- Whether a container makes creators wait now; the gate keeps its reading. -/
def mustWait (name : String) : Action Bool := do
  let c ← container name
  let r ← repo
  let h ← host
  let (w, g) := c.gate.mustWait (r.usable h.disk c) h.now
  setContainer { c with gate := g }
  pure w

/-- The first of the named containers that makes creators wait no longer; each gate asked on
the way keeps its reading. -/
def firstOpen : List String → Action (Option Container)
  | [] => pure none
  | name :: rest => do
    if !(← mustWait name) then return some (← container name)
    firstOpen rest

/-- The container for the claim numbered `index`: round-robin from the number, skipping
containers under back-pressure; none when all are. -/
def selectContainer (index : Nat) : Action (Option Container) := do
  let names := (← repo).containers.map (·.name)
  let n := names.length
  firstOpen ((List.range n).map fun k => names.getD ((index % n + k) % n) "")

/-- Makes the resource claim numbered `index` in a container, writable with one claimant, opens
a stream on its new file and hands out its first content claim. -/
def createIn (box : Container) (index : Nat) (lossTolerant : Bool) : Action Created := do
  let c : Resource := ⟨box.name, box.sectionName index, formatId (← host).now index, lossTolerant⟩
  let _ ← tracking (·.increment c true)
  match (← host).openStream (box.claimPath c) with
  | .error e =>
    let _ ← tracking (·.freeze c)
    let _ ← tracking (·.decrement c)
    throw (.io e)
  | .ok (n, h) =>
    modifyHost fun _ => h
    modifyRepo fun r => { r with streams := (c.key, n) :: r.streams.filter (·.1 != c.key) }
    return .claim (← newClaim c 0)

/-- Hands out a content claim. -/
def create (lossTolerant : Bool) : Action Created := do
  if (← repo).shutDown then throw .shutdown
  match ← takePooled (← repo).pool.size with
  | some (c, len) => return .claim (← newClaim c len)
  | none => pure ()
  let (index?, ids) := (← repo).ids.next
  modifyRepo fun r => { r with ids }
  let some index := index? | throw (.crash IdCounter.overflowMessage)
  let some box ← selectContainer index | return .blocked
  createIn box index lossTolerant

/-- Hands out a writer for a claim not yet written, at the end of its resource claim's file. -/
def write (c : ClaimRef) : Action Writer := do
  let h ← host
  let shown := (h.content c).display
  if h.cell c.cell ≥ 0 then throw (.invalidClaim (shown ++ " has already been written to"))
  let some n := (← repo).streamOf? c.resource
    | throw (.invalidClaim (c.resource.display ++ " is not open for writing"))
  let ends := (h.stream n).written
  if ends != c.offset then
    throw (.invalidClaim (shown ++ " starts at offset " ++ toString c.offset ++
      " but its resource claim ends at " ++ toString ends))
  modifyHost (·.setCell c.cell 0)
  pure (Writer.start c n)

/-- The close hook of the repository's writers: returns the resource claim to the pool when it
may still be appended to, and otherwise retires its stream and freezes it. -/
def completeWrite (c : Resource) (stream : Nat) (failed : Bool) : Action (IoResult Unit) := do
  let r ← repo
  let h ← host
  let (failed, result) : Bool × IoResult Unit :=
    if !failed && r.settings.alwaysSync then
      match h.flush stream with
      | .ok () => (false, .ok ())
      | .error e => (true, .error e)
    else (failed, .ok ())
  let length := (h.stream stream).written
  if !failed && length < r.settings.maxAppendable && !r.shutDown then
    if r.streamOf? c == some stream && (r.tracker.state c).isWritable then
      match r.pool.offer (c, length) with
      | some q =>
        modifyRepo fun r => { r with pool := q }
        return result
      | none => pure ()
  retireStream c (some stream)
  let _ ← tracking (·.freeze c)
  pure result

/-- Ends a writer of the repository by `finish` (closing or dropping) or `abort`, running the
close hook; answers the outcome. -/
def endWriter (w : Writer) (finish : Writer → Host → Option (IoResult Unit × Bool) × Writer) :
    Action (IoResult Unit) := do
  match (finish w (← host)).1 with
  | none => pure (.ok ())
  | some (flushed, failed) =>
    let hooked ← completeWrite w.claim.resource w.stream failed
    pure (Writer.combine flushed hooked)

/-- Writes bytes through a writer; answers the outcome and the writer as it is afterwards. -/
def writeWith (w : Writer) (bytes : ByteArray) : Action (IoResult Nat × Writer) := do
  let (r, w, h) := w.write (← host) bytes
  modifyHost fun _ => h
  pure (r, w)

end Action

end ClaimStore
