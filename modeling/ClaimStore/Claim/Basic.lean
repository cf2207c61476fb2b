import ClaimStore.Text.Quoted
import ClaimStore.Claim.State
/-!
# Resource claims and content claims

A resource claim names one file of the repository: its container, its section (a subdirectory
of the container) and its id (the file name). It also says whether its content may be lost.
Two resource claims are the same claim when container, section and id agree; the loss
tolerance is not part of that identity. They are ordered by container, then section, then id.

A content claim is a byte range of a resource claim's file: it starts at an offset, and its
length is unknown (stored as -1) until the claim has been written. Lengths are stored as signed
64-bit values: a length of 2^63 or more reads as a negative number and so as unknown.
-/

namespace ClaimStore.Claim

open ClaimStore.Text

/-- A file of the repository: container, section and id, and whether its loss is tolerated. -/
structure Resource where
  container : String
  sectionName : String
  id : String
  lossTolerant : Bool
  deriving DecidableEq, Repr

namespace Resource

/-- What identifies a resource claim. -/
def key (r : Resource) : String × String × String := (r.container, r.sectionName, r.id)

/-- Two resource claims name the same file. -/
def same (a b : Resource) : Bool := a.key == b.key

/-- Resource claims are ordered by container, section and id, code point by code point. -/
def compareKey (a b : Resource) : Ordering :=
  match compare a.container b.container with
  | .eq => match compare a.sectionName b.sectionName with
    | .eq => compare a.id b.id
    | o => o
  | o => o

/-- The claim as shown in sentences. -/
def display (r : Resource) : String :=
  "ResourceClaim[id=" ++ r.id ++ ", container=" ++ r.container ++ ", section=" ++
    r.sectionName ++ "]"

/-- The claim with its fields, texts quoted. -/
def describe (r : Resource) : String :=
  "ResourceClaim \x7b container: " ++ quote r.container ++ ", section: " ++ quote r.sectionName ++
    ", id: " ++ quote r.id ++ ", loss_tolerant: " ++ toString r.lossTolerant ++ " \x7d"

/-- The path of the claim inside its container, as `container/section/id`. -/
def slashed (r : Resource) : String := r.container ++ "/" ++ r.sectionName ++ "/" ++ r.id

theorem same_refl (r : Resource) : r.same r = true := by simp [same]

end Resource

/-- Reads a signed 64-bit value stored from a natural number below `2 ^ 64`. -/
def signed64 (n : Nat) : Int :=
  if n < 2 ^ 63 then n else (n : Int) - 2 ^ 64

/-- A byte range of a resource claim's file; `length` is the stored signed length, -1 when it
is unknown. -/
structure Content where
  resource : Resource
  offset : Nat
  length : Int
  deriving DecidableEq, Repr

namespace Content

/-- A claim of unknown length. -/
def fresh (r : Resource) (offset : Nat) : Content := ⟨r, offset, -1⟩

/-- A claim whose length is stored from a 64-bit value. -/
def ofLength (r : Resource) (offset length : Nat) : Content := ⟨r, offset, signed64 length⟩

/-- The length, when it is known (stored non-negative). -/
def knownLength (c : Content) : Option Nat :=
  if 0 ≤ c.length then some c.length.toNat else none

/-- The same claim with its length set from a 64-bit value. -/
def withLength (c : Content) (n : Nat) : Content := { c with length := signed64 n }

/-- Two content claims are equal when they name the same file and start at the same offset. -/
def same (a b : Content) : Bool := a.resource.same b.resource && a.offset == b.offset

/-- The claim as shown in sentences. -/
def display (c : Content) : String :=
  "ContentClaim[" ++ c.resource.display ++ ", offset=" ++ toString c.offset ++ ", length=" ++
    toString c.length ++ "]"

/-- The claim with its fields. -/
def describe (c : Content) : String :=
  "ContentClaim \x7b resource: " ++ c.resource.describe ++ ", offset: " ++ toString c.offset ++
    ", length: " ++ toString c.length ++ " \x7d"

theorem knownLength_withLength (c : Content) (n : Nat) (h : n < 2 ^ 63) :
    (c.withLength n).knownLength = some n := by
  have hs : signed64 n = n := by rw [signed64, if_pos h]
  simp [withLength, knownLength, hs]

end Content

/-- Why claim coordinates or a state change are refused. -/
inductive ClaimError where
  | invalidId (id : String)
  | invalidCoordinates
  | illegalTransition (src dst : Lifecycle)
  deriving DecidableEq, Repr

/-- The sentence that reports a refused claim. -/
def ClaimError.message : ClaimError → String
  | .invalidId id => "invalid claim id: " ++ id
  | .invalidCoordinates => "invalid claim coordinates: container and section must be non-empty"
  | .illegalTransition a b => "illegal claim state transition from " ++ a.name ++ " to " ++ b.name

/-- A state change, refused when the lifecycle does not allow it. -/
def Lifecycle.moveTo (a b : Lifecycle) : Except ClaimError Lifecycle :=
  if a.canMoveTo b then .ok b else .error (.illegalTransition a b)

/-- The portable description of a content claim. -/
structure Coordinates where
  container : String
  sectionName : String
  id : String
  offset : Nat
  length : Int
  deriving DecidableEq, Repr

/-- The coordinates of a content claim. -/
def Content.coordinates (c : Content) : Coordinates :=
  ⟨c.resource.container, c.resource.sectionName, c.resource.id, c.offset, c.length⟩

/-- A content claim from coordinates: container and section must be non-empty, and the id
non-empty without a slash or backslash. A negative length means unknown. The claim is not loss
tolerant. -/
def Coordinates.toContent (k : Coordinates) : Except ClaimError Content :=
  if k.container.isEmpty || k.sectionName.isEmpty then .error .invalidCoordinates
  else if k.id.isEmpty || k.id.toList.any (fun c => c = '/' || c = '\\') then
    .error (.invalidId k.id)
  else
    let r : Resource := ⟨k.container, k.sectionName, k.id, false⟩
    .ok (if 0 ≤ k.length then ⟨r, k.offset, k.length⟩ else Content.fresh r k.offset)

end ClaimStore.Claim
