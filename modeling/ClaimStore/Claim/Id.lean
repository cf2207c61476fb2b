import ClaimStore.Number.Decimal
/-!
# Claim ids

A fresh resource claim's id is its creation time in milliseconds and a counter, joined by a
dash. The creation time is read back from any id whose first dash is not its first character
and whose part before it is a 64-bit unsigned decimal (a leading plus sign allowed).

The counter hands out `start + 1`, `start + 2`, ... The stored count is a 64-bit word that
wraps; handing out the number after the largest word is an arithmetic overflow.
-/

namespace ClaimStore.Claim

/-- The id of a claim created at `millis` with counter value `index`. -/
def formatId (millis index : Nat) : String := toString millis ++ "-" ++ toString index

/-- A 64-bit unsigned decimal: ASCII digits after an optional plus sign, at most `2 ^ 64 - 1`. -/
def readWord? (s : String) : Option Nat := Number.readUnsigned? 64 s

/-- The creation time recorded in a claim id. -/
def creationMillis? (id : String) : Option Nat :=
  match id.toList.idxOf? '-' with
  | none => none
  | some 0 => none
  | some p => readWord? (String.ofList (id.toList.take p))

/-- The counter behind fresh claim ids. -/
structure IdCounter where
  value : Nat
  deriving DecidableEq, Repr

namespace IdCounter

/-- The text of the overflow that handing out a number past the largest word raises. -/
def overflowMessage : String := "attempt to add with overflow"

/-- Hands out the next number, or `none` on overflow; the count moves on (wrapping) either way. -/
def next (c : IdCounter) : Option Nat × IdCounter :=
  if c.value + 1 < 2 ^ 64 then (some (c.value + 1), ⟨c.value + 1⟩) else (none, ⟨0⟩)

theorem next_fst (c : IdCounter) (h : c.value + 1 < 2 ^ 64) :
    (c.next).1 = some (c.value + 1) ∧ (c.next).2.value = c.value + 1 := by
  rw [next, if_pos h]
  exact ⟨rfl, rfl⟩

/-- Hands out `k` numbers one after another: what each call answers, and the counter after. -/
def draws : Nat → IdCounter → List (Option Nat) × IdCounter
  | 0, c => ([], c)
  | k + 1, c =>
    let (rs, c') := draws k c.next.2
    (c.next.1 :: rs, c')

end IdCounter

end ClaimStore.Claim
