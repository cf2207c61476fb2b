import ClaimStore.Disk.Basic
import ClaimStore.Path
import ClaimStore.Text.Quoted
import ClaimStore.Claim.Basic
/-!
# Content streams and the host they run on

A content stream appends to one file. It opens the file for appending, making the file and the
directories above it when they are missing, and counts the bytes the file held at opening
plus every byte written through it. Once closed, every write, flush or sync fails with
`streamClosed`; closing again does nothing.

Streams are shared: a repository and the writers it hands out use the same stream, so streams
live on the host, by number, beside the disk, the clock and the length cells of content
claims (a content claim's length is shared by its copies).
-/

namespace ClaimStore

open ClaimStore.FileSystem

/-- A stream appending to a file. -/
structure Stream where
  /-- The path it was opened with. -/
  path : String
  inode : Nat
  /-- Bytes in the file at opening plus bytes written since. -/
  written : Nat
  closed : Bool

/-- The disk, the clock in milliseconds, the streams by number and the length cells by number. -/
structure Host where
  disk : Disk
  now : Nat
  streams : Array Stream
  cells : Array Int

/-- A content claim on a host: its resource claim and offset, and the cell holding its length. -/
structure ClaimRef where
  resource : Claim.Resource
  offset : Nat
  cell : Nat
  deriving DecidableEq, Repr

namespace Stream

/-- The stream as shown in sentences. -/
def describe (s : Stream) : String :=
  "ClaimStream \x7b path: " ++ Text.quote s.path ++ ", bytes_written: " ++ toString s.written ++
    ", closed: " ++ toString s.closed ++ " \x7d"

end Stream

namespace Host

/-- A host with a disk and a clock, and no streams or cells. -/
def create (disk : Disk) (now : Nat) : Host := ⟨disk, now, #[], #[]⟩

/-- A stream by number. -/
def stream (h : Host) (n : Nat) : Stream := h.streams.getD n ⟨"", 0, 0, true⟩

/-- Replaces a stream. -/
def setStream (h : Host) (n : Nat) (s : Stream) : Host := { h with streams := h.streams.set! n s }

/-- Opens a stream on a file for appending; a missing file is made, with the directories above
it. Answers the stream's number. -/
def openStream (h : Host) (path : String) : IoResult (Nat × Host) := do
  let p ← Disk.placeOf path
  let (i, d) ← match h.disk.openWrite p .append h.now with
    | .ok r => pure r
    | .error .notFound => do
      let d ← match Path.parent? path with
        | some dir => h.disk.makeDirsAt dir
        | none => pure h.disk
      d.openWrite p .append h.now
    | .error e => throw e
  let s : Stream := ⟨path, i, (d.bytes i).size, false⟩
  pure (h.streams.size, { h with disk := d, streams := h.streams.push s })

/-- Writes all of `bytes` at the end of the stream's file. -/
def writeAll (h : Host) (n : Nat) (bytes : ByteArray) : IoResult Host :=
  let s := h.stream n
  if s.closed then throw .streamClosed
  else pure { (h.setStream n { s with written := s.written + bytes.size }) with
    disk := h.disk.append s.inode bytes h.now }

/-- Flushes a stream; fails once it is closed. -/
def flush (h : Host) (n : Nat) : IoResult Unit :=
  if (h.stream n).closed then throw .streamClosed else pure ()

/-- Closes a stream. -/
def close (h : Host) (n : Nat) : Host := h.setStream n { h.stream n with closed := true }

/-- A new length cell holding a raw length. -/
def newCell (h : Host) (raw : Int) : Nat × Host := (h.cells.size, { h with cells := h.cells.push raw })

/-- A cell's raw length (-1 while unknown). -/
def cell (h : Host) (n : Nat) : Int := h.cells.getD n (-1)

/-- Sets a cell. -/
def setCell (h : Host) (n : Nat) (raw : Int) : Host := { h with cells := h.cells.set! n raw }

/-- A content claim with the length its cell holds now. -/
def content (h : Host) (c : ClaimRef) : Claim.Content := ⟨c.resource, c.offset, h.cell c.cell⟩

/-- A content claim with a cell of its own. -/
def adopt (h : Host) (c : Claim.Content) : ClaimRef × Host :=
  let (n, h) := h.newCell c.length
  (⟨c.resource, c.offset, n⟩, h)

end Host

end ClaimStore
