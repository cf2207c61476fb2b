import Mathlib.Data.Nat.ModEq
import ClaimStore.Claim.Id
/-!
# The counter of claim numbers

The counter is a 64-bit word. Each call moves it on by one, wrapping at `2 ^ 64`, and hands out
the new value, or fails with an overflow when the new value wrapped to zero; the word has moved
on either way. So from a start `s`, call `j` (counting from zero) hands out `(s + j + 1) % 2 ^ 64`
unless that is zero, and after `k` calls the counter reads `(s + k) % 2 ^ 64` (`draws_eq`).

Hence the numbers run `s + 1`, `s + 2`, ... with the counter reading the last of them exactly as
long as `s + k < 2 ^ 64`. Past the largest word the counter starts again from one, and two calls
hand out the same number exactly when they lie a multiple of `2 ^ 64` calls apart.
-/

set_option autoImplicit false

namespace ClaimStore.Claim.IdCounter

/-- What call `j` of a run of calls from the count `s` answers. -/
def nth (s j : Nat) : Option Nat :=
  if (s + j + 1) % 2 ^ 64 = 0 then none else some ((s + j + 1) % 2 ^ 64)

theorem next_of_lt {s : Nat} (hs : s < 2 ^ 64) :
    (⟨s⟩ : IdCounter).next = (nth s 0, ⟨(s + 1) % 2 ^ 64⟩) := by
  unfold next nth
  by_cases h : s + 1 < 2 ^ 64
  · rw [if_pos h, Nat.mod_eq_of_lt h, if_neg (by omega)]
  · -- the word was full: the new value wraps to zero
    have hfull : s + 1 = 2 ^ 64 := by omega
    rw [if_neg h, hfull, Nat.mod_self, if_pos rfl]

theorem nth_succ (s j : Nat) : nth ((s + 1) % 2 ^ 64) j = nth s (j + 1) := by
  have h : ((s + 1) % 2 ^ 64 + j + 1) % 2 ^ 64 = (s + (j + 1) + 1) % 2 ^ 64 := by
    rw [Nat.add_assoc, Nat.mod_add_mod, Nat.add_assoc s 1, Nat.add_comm 1 (j + 1),
      Nat.add_assoc s (j + 1)]
  simp only [nth, h]

theorem draws_eq (k : Nat) {s : Nat} (hs : s < 2 ^ 64) :
    draws k ⟨s⟩ = ((List.range k).map (nth s), ⟨(s + k) % 2 ^ 64⟩) := by
  induction k generalizing s with
  | zero => rw [draws, Nat.add_zero, Nat.mod_eq_of_lt hs, List.range_zero, List.map_nil]
  | succ k ih =>
    have hnext : (s + 1) % 2 ^ 64 < 2 ^ 64 := Nat.mod_lt _ (by decide)
    have hend : ((s + 1) % 2 ^ 64 + k) % 2 ^ 64 = (s + (k + 1)) % 2 ^ 64 := by
      rw [Nat.mod_add_mod, Nat.add_assoc, Nat.add_comm 1 k]
    rw [draws, next_of_lt hs, ih hnext, hend, List.range_succ_eq_map, List.map_cons, List.map_map]
    exact congrArg (fun l => (nth s 0 :: l, _)) (List.map_congr_left fun j _ => nth_succ s j)

theorem nth_eq_iff {s i j : Nat} (hij : i ≤ j) : nth s i = nth s j ↔ 2 ^ 64 ∣ j - i := by
  have hmod : (s + j + 1) % 2 ^ 64 = (s + i + 1) % 2 ^ 64 ↔ 2 ^ 64 ∣ j - i := by
    rw [show s + j + 1 = (s + 1) + j by omega, show s + i + 1 = (s + 1) + i by omega,
      ← Nat.modEq_iff_dvd' hij]
    exact ⟨fun h => (Nat.ModEq.add_left_cancel' (s + 1) h).symm,
      fun h => (Nat.ModEq.add_left (s + 1) h).symm⟩
  rw [← hmod]
  unfold nth
  constructor
  · intro h
    split at h <;> split at h
    · rename_i hi hj
      rw [hi, hj]
    · cases h
    · cases h
    · exact (Option.some.inj h).symm
  · intro h
    rw [h]

end ClaimStore.Claim.IdCounter

namespace ClaimStore.Claim

open IdCounter

/-- The numbers a run of calls hands out. From every start `s` that fits the word, over `k`
calls: call `j` answers `nth s j`, the counter ends at `(s + k) % 2 ^ 64`, a number handed out
comes again later in the run exactly after a multiple of `2 ^ 64` calls, and the run hands out
`s + 1`, ..., `s + k` and ends at `s + k` exactly when `s + k < 2 ^ 64`. -/
theorem indices_repeat_only_after_wrapping (s k : Nat) (hs : s < 2 ^ 64) :
    (∀ j, j < k → (draws k ⟨s⟩).1[j]? = some (nth s j)) ∧
    (draws k ⟨s⟩).2.value = (s + k) % 2 ^ 64 ∧
    (∀ i j v, i < j → (draws k ⟨s⟩).1[i]? = some (some v) →
      ((draws k ⟨s⟩).1[j]? = some (some v) ↔ j < k ∧ 2 ^ 64 ∣ j - i)) ∧
    (s + k < 2 ^ 64 ↔
      draws k ⟨s⟩ = ((List.range k).map fun j => some (s + j + 1), ⟨s + k⟩)) := by
  rw [draws_eq k hs]
  refine ⟨fun j hj => by simp [hj], rfl, fun i j v hij hi => ?_, ?_⟩
  · have hik : i < k := by
      by_contra h
      simp [Nat.not_lt.1 h] at hi
    have hv : nth s i = some v := by simpa [hik] using hi
    by_cases hjk : j < k
    · simp only [List.getElem?_map, List.getElem?_range hjk, Option.map_some, Option.some_inj,
        hjk, true_and]
      rw [← hv, eq_comm]
      exact nth_eq_iff hij.le
    · simp [hjk]
  · constructor
    · intro hfit
      -- no call reaches the end of the word, so every call answers its successor
      have hnth : ∀ j, j < k → nth s j = some (s + j + 1) := by
        intro j hj
        have hlt : s + j + 1 < 2 ^ 64 := by omega
        rw [nth, Nat.mod_eq_of_lt hlt, if_neg (by omega)]
      refine Prod.ext (List.map_congr_left fun j hj => hnth j (List.mem_range.1 hj)) ?_
      rw [Nat.mod_eq_of_lt hfit]
    · intro h
      have hval : (s + k) % 2 ^ 64 = s + k := by
        simpa using congrArg (fun r => r.2.value) h
      rw [← hval]
      exact Nat.mod_lt _ (by decide)

/-- Starting two below the largest word, three calls hand out the last two words and then
overflow. -/
theorem counter_overflows_at_largest_word :
    2 ^ 64 - 2 < 2 ^ 64 ∧
    (∀ j, j < 3 → (draws 3 ⟨2 ^ 64 - 2⟩).1[j]? = some (nth (2 ^ 64 - 2) j)) ∧
    (draws 3 ⟨2 ^ 64 - 2⟩).2.value = (2 ^ 64 - 2 + 3) % 2 ^ 64 ∧
    (∀ i j v, i < j → (draws 3 ⟨2 ^ 64 - 2⟩).1[i]? = some (some v) →
      ((draws 3 ⟨2 ^ 64 - 2⟩).1[j]? = some (some v) ↔ j < 3 ∧ 2 ^ 64 ∣ j - i)) ∧
    (2 ^ 64 - 2 + 3 < 2 ^ 64 ↔
      draws 3 ⟨2 ^ 64 - 2⟩ = ((List.range 3).map fun j => some (2 ^ 64 - 2 + j + 1),
        ⟨2 ^ 64 - 2 + 3⟩)) :=
  ⟨by decide, indices_repeat_only_after_wrapping (2 ^ 64 - 2) 3 (by decide)⟩

/-- The counter repeats itself. A counter at the largest word fails its next call and then reads
zero, though nothing was handed out; and a run from zero hands out `1` at its first call and
again at call `2 ^ 64`. -/
theorem counter_repeats_after_wrapping :
    draws 1 ⟨2 ^ 64 - 1⟩ = ([none], ⟨0⟩) ∧
    (draws (2 ^ 64 + 1) ⟨0⟩).1[0]? = some (some 1) ∧
    (draws (2 ^ 64 + 1) ⟨0⟩).1[2 ^ 64]? = some (some 1) := by
  refine ⟨by decide, ?_, ?_⟩
  · rw [draws_eq _ (by decide), List.getElem?_map, List.getElem?_range (by decide)]
    decide
  · rw [draws_eq _ (by decide), List.getElem?_map, List.getElem?_range (by decide)]
    decide

end ClaimStore.Claim
