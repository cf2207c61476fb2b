import ClaimStore.Disk.Basic
/-!
# Space probes

A probe reads, for a directory, the capacity of the volume holding it and the space usable
there. What it reads is the operating system's business: a `Probe` is any pair of readings of a
directory on the disk as it stands, and either reading may fail.

A scripted probe (`Probe.Script`) reports a fixed capacity, and for usable space a fixed number
or what that capacity leaves beside the bytes stored under the probed directory. Either reading
may be made to fail.
-/

namespace ClaimStore.FileSystem

/-- A space probe: the capacity of the volume holding a directory, and the bytes usable on it. -/
structure Probe where
  capacity : String → Disk → IoResult Nat
  usable : String → Disk → IoResult Nat

/-- A probe whose usable-space readings never fail. -/
def Probe.Answers (p : Probe) : Prop := ∀ root d, ∃ u, p.usable root d = .ok u

/-- How a scripted probe finds usable space. -/
inductive Usable where
  /-- Always this many bytes. -/
  | fixed (bytes : Nat)
  /-- The capacity less the bytes of the regular files under the probed directory. -/
  | beside
  deriving DecidableEq, Repr

/-- A scripted space probe. -/
structure Probe.Script where
  capacity : Nat := 2 ^ 40
  usable : Usable := .beside
  failCapacity : Bool := false
  failUsable : Bool := false
  deriving DecidableEq, Repr

namespace Probe.Script

/-- The capacity reading. -/
def capacityReading (p : Script) : IoResult Nat :=
  if p.failCapacity then .error (.other "probe: capacity unavailable") else .ok p.capacity

/-- The usable-space reading, given the bytes stored under the probed directory. -/
def usableReading (p : Script) (stored : Nat) : IoResult Nat :=
  if p.failUsable then .error (.other "probe: usable space unavailable")
  else match p.usable with
    | .fixed n => .ok n
    | .beside => .ok (p.capacity - stored)

/-- The probe a script describes. -/
def probe (p : Script) : Probe where
  capacity _ _ := p.capacityReading
  usable root d := p.usableReading (match place? root with
    | some q => d.storedBelow q
    | none => 0)

theorem answers {p : Script} (h : p.failUsable = false) : p.probe.Answers := by
  intro root d
  simp only [probe, usableReading, h, Bool.false_eq_true, if_false]
  split <;> exact ⟨_, rfl⟩

end Probe.Script

end ClaimStore.FileSystem
