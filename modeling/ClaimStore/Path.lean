import ClaimStore.Prelude
/-!
# Paths as text

A path is a text whose slashes divide it into segments. It may start at the root (a leading
slash) or, failing that, with a leading `.` segment that stands for the current directory. In
the rest, empty and `.` segments are skipped, `..` is the parent and anything else is a name.

The reading of a path keeps its text: the parent of a path is a prefix of its text, with
trailing slashes and `.` segments trimmed, and a path stripped of a prefix is the rest of its
text, trimmed at both ends. Backslashes are ordinary characters.
-/

namespace ClaimStore.Path

/-- A path's start and the segments of the rest, split at every slash. -/
structure Split where
  /-- The path starts at the root. -/
  root : Bool
  /-- The path starts with a `.` segment (never together with the root). -/
  here : Bool
  segments : List String
  deriving Repr

/-- A component of a path. -/
inductive Piece where
  | root
  | here
  | up
  | name (s : String)
  deriving DecidableEq, Repr

/-- Empty and `.` segments stand for nothing. -/
def real (seg : String) : Bool := seg != "" && seg != "."

/-- The component a segment that stands for something is. -/
def Piece.ofSegment (seg : String) : Piece := if seg = ".." then .up else .name seg

/-- Splits a path's text. -/
def split (s : String) : Split :=
  let cs := s.toList
  let root := cs.head? == some '/'
  let here := !root && (cs == ['.'] || cs.take 2 == ['.', '/'])
  let body := if root || here then cs.drop 1 else cs
  ⟨root, here, (body.splitOn '/').map String.ofList⟩

/-- Drops segments that stand for nothing from the end. -/
def trimEnd (segs : List String) : List String := (segs.reverse.dropWhile (!real ·)).reverse

/-- Drops segments that stand for nothing from the front. -/
def trimStart (segs : List String) : List String := segs.dropWhile (!real ·)

namespace Split

/-- The text of the path's start. -/
def lead (p : Split) : String := (if p.root then "/" else "") ++ (if p.here then "." else "")

/-- The components of the start. -/
def startPieces (p : Split) : List Piece :=
  (if p.root then [.root] else []) ++ (if p.here then [.here] else [])

/-- All components, in order. -/
def pieces (p : Split) : List Piece :=
  p.startPieces ++ (p.segments.filter real).map Piece.ofSegment

end Split

/-- The components of a path. -/
def pieces (s : String) : List Piece := (split s).pieces

/-- The last component when it is a name. -/
def fileName? (s : String) : Option String :=
  match (trimEnd (split s).segments).getLast? with
  | some ".." => none
  | some n => some n
  | none => none

/-- The path without its last component; none for the root alone and the empty path. -/
def parent? (s : String) : Option String :=
  let p := split s
  match trimEnd p.segments with
  | [] => if p.here then some "" else none
  | segs => some (p.lead ++ "/".intercalate (trimEnd segs.dropLast))

/-- Appends a path: an absolute one replaces the base, and a slash is put between the two
unless the base is empty or ends in one. -/
def join (base rest : String) : String :=
  if rest.startsWith "/" then rest
  else if base.isEmpty || base.endsWith "/" then base ++ rest
  else base ++ "/" ++ rest

/-- The segments after the first `m` that stand for something. -/
def afterReal : Nat → List String → List String
  | 0, segs => segs
  | _ + 1, [] => []
  | m + 1, seg :: rest => if real seg then afterReal m rest else afterReal (m + 1) rest

/-- The rest of a path after the components of `base`, when `base`'s components begin it. -/
def stripPrefix? (s base : String) : Option String :=
  let p := split s
  let taken := (split base).pieces
  if taken.isPrefixOf p.pieces then
    if taken.isEmpty then some (p.lead ++ "/".intercalate (trimEnd p.segments))
    else
      let names := taken.length - p.startPieces.length
      some ("/".intercalate (trimEnd (trimStart (afterReal names p.segments))))
  else none

end ClaimStore.Path
