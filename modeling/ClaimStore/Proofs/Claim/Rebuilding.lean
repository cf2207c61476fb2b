import ClaimStore.Proofs.Repo.Writing
/-!
# Rebuilding claims from their coordinates

A content claim's coordinates are plain data: container, section, id, offset and the raw length
(-1 while unknown). Rebuilding a claim from them refuses an empty container or section first,
then an id that is empty or holds a slash or a backslash; `Coordinates.Named` is what it accepts.
The rebuilt claim is never loss tolerant and keeps a non-negative length; any negative length
comes back as -1. So coordinates and claims round-trip both ways up to exactly that: the loss
tolerance is dropped and negative lengths are normalised (`coordinates_round_trip`).

A length is stored in a signed 64-bit cell shared by a claim's copies and read by its readings.
Setting a 64-bit length `v` makes every copy and every reading see `v` when `v < 2 ^ 63`, and an
unknown length otherwise: larger values wrap to negative.
-/

set_option autoImplicit false

namespace ClaimStore.Claim

/-- Coordinates that name a claim: container and section are not empty, and the id is neither
empty nor holds a slash or a backslash. -/
def Coordinates.Named (k : Coordinates) : Prop :=
  k.container ≠ "" ∧ k.sectionName ≠ "" ∧ k.id ≠ "" ∧ '/' ∉ k.id.toList ∧ '\\' ∉ k.id.toList

namespace Coordinates

variable {k : Coordinates}

theorem toContent_of_empty (h : k.container = "" ∨ k.sectionName = "") :
    k.toContent = .error .invalidCoordinates := by
  rw [toContent, if_pos (by simpa [String.isEmpty_iff] using h)]

theorem toContent_of_badId (hc : k.container ≠ "") (hs : k.sectionName ≠ "")
    (hid : k.id = "" ∨ '/' ∈ k.id.toList ∨ '\\' ∈ k.id.toList) :
    k.toContent = .error (.invalidId k.id) := by
  rw [toContent, if_neg (by simpa [String.isEmpty_iff] using ⟨hc, hs⟩), if_pos]
  rcases hid with h | h | h
  · simp [h]
  · simp only [Bool.or_eq_true, List.any_eq_true, decide_eq_true_eq]
    exact .inr ⟨'/', h, .inl rfl⟩
  · simp only [Bool.or_eq_true, List.any_eq_true, decide_eq_true_eq]
    exact .inr ⟨'\\', h, .inr rfl⟩

theorem toContent_of_named (hk : k.Named) :
    k.toContent = .ok ⟨⟨k.container, k.sectionName, k.id, false⟩, k.offset, max k.length (-1)⟩ := by
  obtain ⟨hc, hs, hi, hslash, hback⟩ := hk
  rw [toContent, if_neg (by simpa [String.isEmpty_iff] using ⟨hc, hs⟩), if_neg]
  · simp only [Except.ok.injEq]
    by_cases hl : 0 ≤ k.length
    · rw [if_pos hl, Int.max_eq_left (by omega)]
    · rw [if_neg hl, Int.max_eq_right (by omega)]
      rfl
  · simp only [Bool.or_eq_true, String.isEmpty_iff, List.any_eq_true, decide_eq_true_eq, not_or,
      not_exists, not_and]
    exact ⟨hi, fun c hc => ⟨fun h => hslash (h ▸ hc), fun h => hback (h ▸ hc)⟩⟩

theorem toContent_ok_iff : (∃ c, k.toContent = .ok c) ↔ k.Named := by
  constructor
  · rintro ⟨c, hc⟩
    by_contra hn
    by_cases hcs : k.container = "" ∨ k.sectionName = ""
    · rw [toContent_of_empty hcs] at hc
      cases hc
    · simp only [not_or] at hcs
      have hid : k.id = "" ∨ '/' ∈ k.id.toList ∨ '\\' ∈ k.id.toList := by
        simp only [Named, not_and_or, not_not] at hn
        tauto
      rw [toContent_of_badId hcs.1 hcs.2 hid] at hc
      cases hc
  · intro hk
    exact ⟨_, toContent_of_named hk⟩

theorem coordinates_of_toContent {c : Content} (h : k.toContent = .ok c) :
    c.coordinates = { k with length := max k.length (-1) } := by
  rw [toContent_of_named (toContent_ok_iff.1 ⟨c, h⟩)] at h
  cases h
  rfl

end Coordinates

theorem Content.toContent_coordinates {c : Content} (h : c.coordinates.Named) :
    c.coordinates.toContent =
      .ok ⟨{ c.resource with lossTolerant := false }, c.offset, max c.length (-1)⟩ :=
  Coordinates.toContent_of_named h

theorem signed64_read (v : UInt64) :
    (if 0 ≤ signed64 v.toNat then some (signed64 v.toNat).toNat else none) =
      if v.toNat < 2 ^ 63 then some v.toNat else none := by
  have hv := v.toNat_lt
  unfold signed64
  by_cases h : v.toNat < 2 ^ 63
  · rw [if_pos h, if_pos h, if_pos (Int.natCast_nonneg _), Int.toNat_natCast]
  · simp only [h, if_false]
    rw [if_neg (by omega)]

end ClaimStore.Claim

namespace ClaimStore

open ClaimStore.Claim

theorem Host.knownLength_setCell {h : Host} {c c' : ClaimRef} (hc : c.cell < h.cells.size)
    (hcc : c'.cell = c.cell) (v : UInt64) :
    ((h.setCell c.cell (signed64 v.toNat)).content c').knownLength =
      if v.toNat < 2 ^ 63 then some v.toNat else none := by
  rw [← signed64_read]
  simp [Host.content, Content.knownLength, Host.cell_setCell h hc, hcc]

theorem Reading.limit_setCell {h : Host} {c : ClaimRef} {r : Reading} (hc : c.cell < h.cells.size)
    (hr : r.cell = c.cell) (v : UInt64) :
    r.limit (h.setCell c.cell (signed64 v.toNat)) =
      if v.toNat < 2 ^ 63 then some v.toNat else none := by
  rw [← signed64_read]
  simp [Reading.limit, Host.cell_setCell h hc, hr]

/-- Claims and their coordinates round-trip. A claim whose coordinates are named is rebuilt as
itself (same container, section, id and offset), not loss tolerant, with its raw length when that
is at least -1 and -1 otherwise; rebuilding accepts exactly the named coordinates, and the
rebuilt claim's coordinates are those it came from up to the same normalisation; an empty
container or section is refused first, then a bad id. After a 64-bit length `v` is set through
a claim's cell, every copy and every reading of it reads `v` when `v < 2 ^ 63` and an unknown
length otherwise. -/
theorem coordinates_round_trip :
    (∀ c : Content, c.coordinates.Named → c.coordinates.toContent =
      .ok ⟨{ c.resource with lossTolerant := false }, c.offset, max c.length (-1)⟩) ∧
    (∀ (k : Coordinates) (c : Content), k.toContent = .ok c →
      c.coordinates = { k with length := max k.length (-1) }) ∧
    (∀ k : Coordinates, ((∃ c, k.toContent = .ok c) ↔ k.Named) ∧
      (k.container = "" ∨ k.sectionName = "" → k.toContent = .error .invalidCoordinates) ∧
      (k.container ≠ "" → k.sectionName ≠ "" →
        (k.id = "" ∨ '/' ∈ k.id.toList ∨ '\\' ∈ k.id.toList) →
        k.toContent = .error (.invalidId k.id))) ∧
    (∀ (h : Host) (c c' : ClaimRef) (r : Reading) (v : UInt64), c.cell < h.cells.size →
      c'.cell = c.cell → r.cell = c.cell →
      ((h.setCell c.cell (signed64 v.toNat)).content c').knownLength =
          (if v.toNat < 2 ^ 63 then some v.toNat else none) ∧
        r.limit (h.setCell c.cell (signed64 v.toNat)) =
          (if v.toNat < 2 ^ 63 then some v.toNat else none)) :=
  ⟨fun _ => Content.toContent_coordinates, fun _ _ => Coordinates.coordinates_of_toContent,
    fun _ => ⟨Coordinates.toContent_ok_iff, Coordinates.toContent_of_empty,
      Coordinates.toContent_of_badId⟩,
    fun _ _ _ _ v hc hcc hr => ⟨Host.knownLength_setCell hc hcc v, Reading.limit_setCell hc hr v⟩⟩

/-- A loss-tolerant claim of length 30 at offset 12 is rebuilt from its coordinates as the same
claim, not loss tolerant; and once the length `2 ^ 63` is set through a claim's cell, a copy of
the claim at another offset reads an unknown length. -/
theorem rebuilt_claim_and_wrapped_length :
    (Content.mk ⟨"default", "7", "1700-3", true⟩ 12 30).coordinates.Named ∧
      (Content.mk ⟨"default", "7", "1700-3", true⟩ 12 30).coordinates.toContent =
        .ok ⟨⟨"default", "7", "1700-3", false⟩, 12, 30⟩ ∧
      (((⟨FileSystem.Disk.fresh, 0, #[], #[-1]⟩ : Host).setCell 0
        (signed64 (9223372036854775808 : UInt64).toNat)).content ⟨⟨"default", "7", "1700-3", false⟩, 16, 0⟩
        ).knownLength = none := by
  have hnamed : (Content.mk ⟨"default", "7", "1700-3", true⟩ 12 30).coordinates.Named := by
    refine ⟨by decide, by decide, by decide, by decide, by decide⟩
  refine ⟨hnamed, coordinates_round_trip.1 _ hnamed, ?_⟩
  have hcell := (coordinates_round_trip.2.2.2 ⟨FileSystem.Disk.fresh, 0, #[], #[-1]⟩
    ⟨⟨"default", "7", "1700-3", false⟩, 0, 0⟩ ⟨⟨"default", "7", "1700-3", false⟩, 16, 0⟩
    ⟨.dir, Reader.start 0, 0⟩ 9223372036854775808 (by decide) rfl rfl).1
  rw [hcell]
  decide

end ClaimStore
