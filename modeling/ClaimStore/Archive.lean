import ClaimStore.Path
/-!
# Archive locations

An archived file lives in a directory named `archive` beside the place it was written:
`<dir>/<name>` is archived as `<dir>/archive/<name>`. A path is archived when the directory
holding it is named `archive`. An archive entry remembers a file under a container root by its
path relative to the root, its name, size and age.
-/

namespace ClaimStore.Archive

open ClaimStore.Path

/-- The name of the directory that holds archived files. -/
def dirName : String := "archive"

/-- Whether the directory holding a path is an archive directory. -/
def isArchived (path : String) : Bool := ((parent? path).bind fileName?) == some dirName

/-- Where a file would be archived: in the archive directory beside it. None for a path
without a name or a parent. -/
def pathFor? (live : String) : Option String := do
  let name ← fileName? live
  let dir ← parent? live
  pure (join (join dir dirName) name)

/-- An archived file under a container root. -/
structure Entry where
  root : String
  /-- The path relative to the root (the whole path when it is not under the root). -/
  relative : String
  name : String
  size : Nat
  /-- Milliseconds since the epoch. -/
  lastModified : Nat
  deriving DecidableEq, Repr

/-- The entry for the file at `path` under `root`. -/
def Entry.create (root path : String) (size lastModified : Nat) : Entry :=
  { root, relative := (stripPrefix? path root).getD path, name := (fileName? path).getD "",
    size, lastModified }

/-- The file's path. -/
def Entry.path (e : Entry) : String := join e.root e.relative

end ClaimStore.Archive
