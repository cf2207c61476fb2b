import ClaimStore.Prelude
/-!
# File-system errors

Why an operation on files failed. Each cause has a kind name and a sentence; the sentences of
the operating system carry its error number, the others are the store's own.
-/

namespace ClaimStore.FileSystem

/-- Why an operation on files failed. -/
inductive IoError where
  /-- A path names nothing. -/
  | notFound
  /-- A path goes through something that is not a directory. -/
  | notADirectory
  /-- A file operation met a directory. -/
  | isADirectory
  /-- Something already stands where a new entry was to be made. -/
  | alreadyExists
  /-- A directory to be removed still holds entries. -/
  | directoryNotEmpty
  /-- A directory was to be moved into itself. -/
  | invalidArgument
  /-- A content stream was used after it had been closed. -/
  | streamClosed
  /-- Any other failure, with its sentence. -/
  | other (message : String)
  deriving DecidableEq, Repr, Inhabited

namespace IoError

/-- The name of the error's kind. -/
def kind : IoError → String
  | .notFound => "NotFound"
  | .notADirectory => "NotADirectory"
  | .isADirectory => "IsADirectory"
  | .alreadyExists => "AlreadyExists"
  | .directoryNotEmpty => "DirectoryNotEmpty"
  | .invalidArgument => "InvalidInput"
  | .streamClosed => "BrokenPipe"
  | .other _ => "Other"

/-- The error as a sentence. -/
def message : IoError → String
  | .notFound => "No such file or directory (os error 2)"
  | .notADirectory => "Not a directory (os error 20)"
  | .isADirectory => "Is a directory (os error 21)"
  | .alreadyExists => "File exists (os error 17)"
  | .directoryNotEmpty => "Directory not empty (os error 39)"
  | .invalidArgument => "Invalid argument (os error 22)"
  | .streamClosed => "content stream has been closed"
  | .other m => m

end IoError

/-- A result of an operation on files. -/
abbrev IoResult := Except IoError

end ClaimStore.FileSystem
