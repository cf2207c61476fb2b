import ClaimStore.Disk.Error
/-!
# Disks

A disk maps places to directories and files. A file is a reference to an inode that holds its
bytes and the time they last changed. Open handles hold inodes, not places, so a handle keeps
its file across a rename, an unlink or a truncation, as a handle of the operating system does.

A place is the list of names from the root down. A path's text names a place: a leading slash
starts at the root and anything else at the working directory; empty and `.` segments are
skipped and `..` goes up. The empty text names nothing. A session's scratch directory lies in
the temporary area, at a path 24 characters long; it and the working directory exist from the
start, empty.

Each operation checks what the operating system checks, in its order: every directory on the
way must exist (`notFound`) and be a directory (`notADirectory`), then the entry itself.
-/

namespace ClaimStore.FileSystem

/-- The names from the root down. -/
abbrev Place := List String

/-- The place of the session's scratch directory. -/
def scratchPlace : Place := ["tmp", "claim-store.scratch"]

/-- The path of the session's scratch directory. -/
def scratchName : String := "/tmp/claim-store.scratch"

/-- The working directory. -/
def workPlace : Place := ["work"]

/-- What a place holds. -/
inductive Node where
  | dir
  | file (inode : Nat)
  deriving DecidableEq, Repr

/-- A file's bytes and the time, in milliseconds, they last changed. -/
structure Inode where
  bytes : ByteArray
  modified : Nat

/-- Directories and files, and the inodes of files (never reused). -/
structure Disk where
  nodes : List (Place × Node)
  inodes : Array Inode

/-- Follows one segment of a path. -/
def stepPlace (p : Place) (seg : String) : Place :=
  if seg = "" || seg = "." then p else if seg = ".." then p.dropLast else p ++ [seg]

/-- The place a path's text names, if any. -/
def place? (text : String) : Option Place :=
  if text.isEmpty then none
  else
    match (text.toList.splitOn '/').map String.ofList with
    | "" :: rest => some (rest.foldl stepPlace [])
    | segments => some (segments.foldl stepPlace workPlace)

namespace Disk

/-- A disk holding only the scratch and working directories. -/
def fresh : Disk := ⟨[(["tmp"], .dir), (scratchPlace, .dir), (workPlace, .dir)], #[]⟩

/-- What a place holds; the root is a directory. -/
def node? (d : Disk) (p : Place) : Option Node :=
  if p.isEmpty then some .dir else (d.nodes.find? (·.1 == p)).map (·.2)

/-- Whether a place is a directory. -/
def isDir (d : Disk) (p : Place) : Bool := d.node? p == some .dir

/-- The inode of a file at a place. -/
def inode? (d : Disk) (p : Place) : Option Nat :=
  match d.node? p with
  | some (.file i) => some i
  | _ => none

/-- A file's bytes. -/
def bytes (d : Disk) (i : Nat) : ByteArray := (d.inodes.getD i ⟨ByteArray.empty, 0⟩).bytes

/-- When a file's bytes last changed. -/
def modified (d : Disk) (i : Nat) : Nat := (d.inodes.getD i ⟨ByteArray.empty, 0⟩).modified

/-- Every directory on the way to a place must exist and be a directory. -/
def reach (d : Disk) (p : Place) : IoResult Unit :=
  ((List.range p.length).drop 1).forM fun n =>
    match d.node? (p.take n) with
    | some .dir => pure ()
    | some (.file _) => throw .notADirectory
    | none => throw .notFound

/-- What a place holds, after walking to it. -/
def lookup (d : Disk) (p : Place) : IoResult (Option Node) := do
  d.reach p
  pure (d.node? p)

/-- Sets what a place holds. -/
def set (d : Disk) (p : Place) (n : Node) : Disk :=
  { d with nodes := d.nodes.filter (·.1 != p) ++ [(p, n)] }

/-- Removes a place and everything below it. -/
def drop (d : Disk) (p : Place) : Disk :=
  { d with nodes := d.nodes.filter fun e => !p.isPrefixOf e.1 }

/-- A new inode holding `bytes`. -/
def allocate (d : Disk) (bytes : ByteArray) (now : Nat) : Nat × Disk :=
  (d.inodes.size, { d with inodes := d.inodes.push ⟨bytes, now⟩ })

/-- Replaces a file's bytes. -/
def store (d : Disk) (i : Nat) (bytes : ByteArray) (now : Nat) : Disk :=
  { d with inodes := d.inodes.set! i ⟨bytes, now⟩ }

/-- Appends to a file. -/
def append (d : Disk) (i : Nat) (bytes : ByteArray) (now : Nat) : Disk :=
  d.store i (d.bytes i ++ bytes) now

/-- The entries of a directory, by name. -/
def children (d : Disk) (p : Place) : List (String × Node) :=
  let direct := d.nodes.filterMap fun (q, n) =>
    if q.length = p.length + 1 && p.isPrefixOf q then q.getLast?.map (·, n) else none
  direct.mergeSort fun a b => decide (a.1 ≤ b.1)

/-- Every place strictly below a place, in order of their names. -/
def below (d : Disk) (p : Place) : List (Place × Node) :=
  let under := d.nodes.filter fun (q, _) => q.length > p.length && p.isPrefixOf q
  under.mergeSort fun a b => decide (a.1 ≤ b.1)

/-- The bytes of the regular files below a place. -/
def storedBelow (d : Disk) (p : Place) : Nat :=
  ((d.below p).filterMap fun (_, n) => match n with
    | .file i => some (d.bytes i).size
    | .dir => none).sum

/-! ## Operations of the operating system -/

/-- Makes a directory; its parent must exist. -/
def makeDir (d : Disk) (p : Place) : IoResult Disk := do
  match ← d.lookup p with
  | some _ => throw .alreadyExists
  | none => pure (d.set p .dir)

/-- Makes a directory and the missing ones above it. A file in the way is an error: at the
place itself `alreadyExists`, above it `notADirectory`. -/
def makeDirs (d : Disk) (p : Place) : IoResult Disk :=
  match d.node? p with
  | some .dir => pure d
  | some (.file _) => throw .alreadyExists
  | none =>
    let missing := ((List.range (p.length + 1)).drop 1).filter fun n => (d.node? (p.take n)).isNone
    let blocked := ((List.range p.length).drop 1).any fun n =>
      match d.node? (p.take n) with
      | some (.file _) => true
      | _ => false
    if blocked then throw .notADirectory
    else pure (missing.foldl (fun d n => d.set (p.take n) .dir) d)

/-- How a file is opened for writing. -/
inductive Opening where
  /-- Create if missing, keep the bytes, write at the end. -/
  | append
  /-- Create if missing, drop the bytes. -/
  | truncate
  /-- Create; an existing entry is an error. -/
  | fresh
  deriving DecidableEq, Repr

/-- Opens a file for writing, answering its inode. -/
def openWrite (d : Disk) (p : Place) (how : Opening) (now : Nat) : IoResult (Nat × Disk) := do
  match ← d.lookup p with
  | some .dir => throw (if how = .fresh then .alreadyExists else .isADirectory)
  | some (.file i) =>
    match how with
    | .append => pure (i, d)
    | .truncate => pure (i, d.store i ByteArray.empty now)
    | .fresh => throw .alreadyExists
  | none =>
    let (i, d) := d.allocate ByteArray.empty now
    pure (i, d.set p (.file i))

/-- What opening a place for reading finds: a file's inode, or a directory. -/
def openRead (d : Disk) (p : Place) : IoResult Node := do
  match ← d.lookup p with
  | some n => pure n
  | none => throw .notFound

/-- Unlinks a file. -/
def removeFile (d : Disk) (p : Place) : IoResult Disk := do
  match ← d.lookup p with
  | some (.file _) => pure (d.drop p)
  | some .dir => throw .isADirectory
  | none => throw .notFound

/-- Removes a directory and everything in it. -/
def removeTree (d : Disk) (p : Place) : IoResult Disk := do
  match ← d.lookup p with
  | some .dir => pure (d.drop p)
  | some (.file _) => throw .notADirectory
  | none => throw .notFound

/-- Moves an entry. A file may replace a file, a directory an empty directory. -/
def rename (d : Disk) (src dst : Place) : IoResult Disk := do
  d.reach src
  d.reach dst
  let some n := d.node? src | throw .notFound
  if src = dst then return d
  if src.isPrefixOf dst then throw .invalidArgument
  match n, d.node? dst with
  | .file _, some .dir => throw .isADirectory
  | .dir, some (.file _) => throw .notADirectory
  | .dir, some .dir =>
    if (d.children dst).isEmpty then pure () else throw .directoryNotEmpty
  | _, _ => pure ()
  let moved := (d.nodes.filter fun e => src.isPrefixOf e.1).map fun (q, m) =>
    (dst ++ q.drop src.length, m)
  let rest := (d.drop src).drop dst
  pure { rest with nodes := rest.nodes ++ moved }

/-- The entries of a directory. -/
def readDir (d : Disk) (p : Place) : IoResult (List (String × Node)) := do
  match ← d.lookup p with
  | some .dir => pure (d.children p)
  | some (.file _) => throw .notADirectory
  | none => throw .notFound

/-- What a place holds: a missing place is an error. -/
def stat (d : Disk) (p : Place) : IoResult Node := do
  match ← d.lookup p with
  | some n => pure n
  | none => throw .notFound

/-- Whether a place holds anything. -/
def exists? (d : Disk) (p : Place) : Bool := (d.stat p).toOption.isSome

/-- The size of an entry: a file's bytes; a directory counts one block. -/
def sizeOf (d : Disk) : Node → Nat
  | .file i => (d.bytes i).size
  | .dir => 4096

/-! ## Operations by path -/

/-- The place of a path, or `notFound` for the empty path. -/
def placeOf (text : String) : IoResult Place :=
  match place? text with
  | some p => pure p
  | none => throw .notFound

/-- What a path holds, if it can be reached. -/
def nodeAt? (d : Disk) (text : String) : Option Node :=
  match place? text with
  | some p => (d.stat p).toOption
  | none => none

/-- Whether a path is a directory. -/
def isDirAt (d : Disk) (text : String) : Bool := d.nodeAt? text == some .dir

/-- Whether a path holds anything. -/
def existsAt (d : Disk) (text : String) : Bool := (d.nodeAt? text).isSome

/-- Makes a directory and the missing ones above it; the empty path is left alone. -/
def makeDirsAt (d : Disk) (text : String) : IoResult Disk :=
  if text.isEmpty then pure d else do d.makeDirs (← placeOf text)

/-- Moves an entry by path. -/
def renameAt (d : Disk) (src dst : String) : IoResult Disk := do
  d.rename (← placeOf src) (← placeOf dst)

/-- Writes a whole file by path, making the directories above it. -/
def putFile (d : Disk) (path : String) (bytes : ByteArray) (now : Nat) : IoResult Disk := do
  let p ← placeOf path
  let d ← d.makeDirs p.dropLast
  let (i, d) ← d.openWrite p .truncate now
  pure (d.store i bytes now)

/-- Unlinks a file by path. -/
def removeFileAt (d : Disk) (text : String) : IoResult Disk := do
  d.removeFile (← placeOf text)

end Disk

end ClaimStore.FileSystem
