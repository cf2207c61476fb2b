import ClaimStore.Repo.Write
import ClaimStore.Reader
/-!
# Reading claims

A claim's bytes are read from its resource claim's file at the live location, or else at the
archive location. Reading starts at the claim's offset and stops at the claim's length as it
stands at each read, or at the end of the file while the length is unknown. A claim whose file
is missing, or shorter than its offset, has lost its content.

A claim's size is its length when known, and otherwise what its file holds past its offset.
An export of a range first checks the range against the size, then skips to the range's start.
-/

namespace ClaimStore

open ClaimStore.Claim ClaimStore.FileSystem

/-- An open reading of a claim: what it reads (a file, or a directory in the way), where it
stands, and the cell of the claim's length. -/
structure Reading where
  node : Node
  reader : Reader
  cell : Nat
  deriving DecidableEq, Repr

namespace Reading

/-- The limit in force: the claim's length when known. -/
def limit (r : Reading) (h : Host) : Option Nat :=
  let raw := h.cell r.cell
  if raw ≥ 0 then some raw.toNat else none

/-- One read of at most `max` bytes. A read under a limit already reached delivers nothing;
reading a directory fails. -/
def read (r : Reading) (h : Host) (max : Nat) : IoResult (ByteArray × Reading) :=
  let limit := r.limit h
  if r.reader.window limit max = 0 then
    pure (ByteArray.empty, r)
  else
    match r.node with
    | .dir => throw .isADirectory
    | .file i =>
      let (bs, reader) := r.reader.read (h.disk.bytes i) limit max
      pure (bs, { r with reader })

/-- Reads up to the limit or the end of the file. -/
def readToEnd (r : Reading) (h : Host) : IoResult (ByteArray × Reading) :=
  match r.node with
  | .file i => r.read h (h.disk.bytes i).size
  | .dir => r.read h 1

/-- The reading as shown in sentences. -/
def describe (r : Reading) (h : Host) : String := r.reader.describe (r.limit h)

/-- Whether a reading with no limit reads, with bytes still ahead of it, the file an open stream
appends to: each chunk it reads and the stream appends lies ahead of it again. -/
def feeds (r : Reading) (h : Host) (stream : Nat) : Bool :=
  r.limit h == none && r.node == .file (h.stream stream).inode && !(h.stream stream).closed &&
    r.reader.position < h.disk.sizeOf r.node

end Reading

namespace Action

/-- What the live or else the archive location of a resource claim holds. -/
def openContent (c : Resource) : Action Node := do
  let box ← container c.container
  let d := (← host).disk
  let at? : String → IoResult Node := fun path => do d.openRead (← Disk.placeOf path)
  match at? (box.claimPath c) with
  | .ok n => pure n
  | .error .notFound =>
    match at? (box.archivePath c) with
    | .ok n => pure n
    | .error .notFound =>
      throw (.contentNotFound c "no file in either the live or the archive location")
    | .error e => throw (.io e)
  | .error e => throw (.io e)

/-- Opens a claim for reading at its offset. -/
def read (c : ClaimRef) : Action Reading := do
  let n ← openContent c.resource
  let actual := (← host).disk.sizeOf n
  if c.offset > actual then
    throw (.contentNotFound c.resource ("content claim starts at offset " ++ toString c.offset ++
      " but the resource claim holds only " ++ toString actual ++ " bytes"))
  pure ⟨n, Reader.start c.offset, c.cell⟩

/-- The path of the first location of a resource claim that holds anything. -/
def resolvePath (c : Resource) : Action (Option String) := do
  match (← repo).container? c.container with
  | none => pure none
  | some box =>
    let d := (← host).disk
    pure ([box.claimPath c, box.archivePath c].find? d.existsAt)

/-- Whether a claim's bytes can be found. -/
def isAccessible (c : Resource) : Action Bool := do pure (← resolvePath c).isSome

/-- The size of a resource claim's file. -/
def sizeOfResource (c : Resource) : Action Nat := do
  let some path ← resolvePath c | throw (.contentNotFound c "no live or archived file")
  let d := (← host).disk
  match d.nodeAt? path with
  | some n => pure (d.sizeOf n)
  | none => throw (.io .notFound)

/-- The size of a claim: its length when known, else what its file holds past its offset. -/
def size (c : ClaimRef) : Action Nat := do
  let raw := (← host).cell c.cell
  if raw ≥ 0 then pure raw.toNat
  else pure ((← sizeOfResource c.resource) - c.offset)

/-- Reads to the end from a reading, failing as `io`. -/
def drain (r : Reading) : Action ByteArray := do
  let (bs, _) ← ofIo (r.readToEnd (← host))
  pure bs

/-- The bytes of a claim. -/
def exportAll (c : ClaimRef) : Action ByteArray := do drain (← read c)

/-- Opens a range of a claim for reading: checks the range against the claim's size, then
skips to its start. -/
def openRange (c : ClaimRef) (offset length : Nat) : Action Reading := do
  let size ← size c
  if offset + length ≥ 2 ^ 64 || offset + length > size then
    throw (.invalidClaim ("cannot export " ++ toString length ++ " bytes at offset " ++
      toString offset ++ " from " ++ ((← host).content c).display ++ " of " ++ toString size ++
      " bytes"))
  let r ← read c
  let (skipped, r) ← ofIo (r.read (← host) offset)
  if skipped.size < offset then
    throw (.contentNotFound c.resource ("content ended after " ++ toString skipped.size ++
      " bytes while skipping to offset " ++ toString offset))
  pure r

/-- Reads at most `length` bytes from a reading, failing as `io`. -/
def take (r : Reading) (length : Nat) : Action ByteArray := do
  let (bs, _) ← ofIo (r.read (← host) length)
  pure bs

/-- The bytes of a range of a claim. -/
def exportRange (c : ClaimRef) (offset length : Nat) : Action ByteArray := do
  take (← openRange c offset length) length

/-- Opens a file to export into, making the directories above it; with `append` the bytes go
after what the file holds, otherwise the file is emptied first. -/
def openDestination (dest : String) (append : Bool) : Action Nat := do
  match Path.parent? dest with
  | some dir => if dir.isEmpty then pure () else onDisk (·.makeDirsAt dir)
  | none => pure ()
  let h ← host
  let p ← ofIo (Disk.placeOf dest)
  let (i, d) ← ofIo (h.disk.openWrite p (if append then .append else .truncate) h.now)
  modifyHost fun h => { h with disk := d }
  pure i

/-- Writes bytes into a file opened for export. -/
def emit (i : Nat) (bytes : ByteArray) : Action Unit :=
  modifyHost fun h => { h with disk := h.disk.append i bytes h.now }

/-- Exports a claim into a file; answers the bytes copied. -/
def exportToPath (c : ClaimRef) (dest : String) (append : Bool) : Action Nat := do
  let r ← read c
  let i ← openDestination dest append
  let bs ← drain r
  emit i bs
  pure bs.size

/-- Exports a range of a claim into a file; answers the bytes copied. -/
def exportRangeToPath (c : ClaimRef) (dest : String) (append : Bool) (offset length : Nat) :
    Action Nat := do
  let r ← openRange c offset length
  let i ← openDestination dest append
  let bs ← take r length
  emit i bs
  pure bs.size

end Action

end ClaimStore
