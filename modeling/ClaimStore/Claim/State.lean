import ClaimStore.Prelude
/-!
# Claim lifecycle

A resource claim is writable while its file may still grow, frozen once it is complete, and
then either archived (moved aside, still readable) or removed. The only moves are writable to
frozen, frozen to archived or removed, and archived to removed.
-/

namespace ClaimStore.Claim

/-- Where a resource claim stands in its life. -/
inductive Lifecycle where
  | writable
  | frozen
  | archived
  | removed
  deriving DecidableEq, Repr

namespace Lifecycle

/-- Whether a claim in state `a` may move to state `b`. -/
def canMoveTo : Lifecycle → Lifecycle → Bool
  | .writable, .frozen => true
  | .frozen, .archived => true
  | .frozen, .removed => true
  | .archived, .removed => true
  | _, _ => false

/-- A claim may still be appended to. -/
def isWritable (s : Lifecycle) : Bool := s == .writable

/-- A claim's file has been moved aside or deleted. -/
def isDestroyed : Lifecycle → Bool
  | .archived | .removed => true
  | _ => false

/-- The lower-case name of a state. -/
def name : Lifecycle → String
  | .writable => "writable"
  | .frozen => "frozen"
  | .archived => "archived"
  | .removed => "removed"

/-- The state with a given name. -/
def ofName? : String → Option Lifecycle
  | "writable" => some .writable
  | "frozen" => some .frozen
  | "archived" => some .archived
  | "removed" => some .removed
  | _ => none

theorem ofName?_name (s : Lifecycle) : ofName? s.name = some s := by
  cases s <;> rfl

theorem canMoveTo_writable (s : Lifecycle) : canMoveTo s .writable = false := by
  cases s <;> rfl

end Lifecycle

end ClaimStore.Claim
