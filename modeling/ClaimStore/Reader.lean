import ClaimStore.Prelude
/-!
# Limited readers

A reader delivers the bytes of a source from a position on, never past a limit on what it
delivers in all. The limit is asked for on every read and may change between reads; with no
limit the reader runs to the end of the source. A read under a limit already reached delivers
nothing.
-/

namespace ClaimStore

/-- A reader's place in its source and how much it has delivered. -/
structure Reader where
  /-- The next byte of the source to deliver. -/
  position : Nat
  /-- Bytes delivered so far. -/
  consumed : Nat
  deriving DecidableEq, Repr

namespace Reader

/-- A reader starting at `position`. -/
def start (position : Nat := 0) : Reader := ⟨position, 0⟩

/-- How many bytes a read of at most `max` may deliver under `limit`. -/
def window (r : Reader) (limit : Option Nat) (max : Nat) : Nat :=
  match limit with
  | some l => min max (l - r.consumed)
  | none => max

/-- One read of at most `max` bytes from `source`. -/
def read (r : Reader) (source : ByteArray) (limit : Option Nat) (max : Nat) : ByteArray × Reader :=
  let n := min (r.window limit max) (source.size - r.position)
  (source.extract r.position (r.position + n), ⟨r.position + n, r.consumed + n⟩)

/-- Reads until a read delivers nothing: up to the limit or the end of the source. -/
def readToEnd (r : Reader) (source : ByteArray) (limit : Option Nat) : ByteArray × Reader :=
  r.read source limit source.size

/-! ## Reading from any source

A file hands a read every byte it asks for that the file still holds. Other sources may hand
over fewer; what every source promises is described by `Fill`. The reads below are the reader's
over such a source: `read` is `readBy Fill.full`, and `readToEnd` is `readToEndBy` over a file
(`Proofs.Streams.Limits`). -/

/-- How a source fills one read: asked for `want` bytes with `left` bytes still unread, it hands
over the next `count want left` of them, no more than either, and none only when asked for none
or when none are left. -/
structure Fill where
  count : Nat → Nat → Nat
  count_le : ∀ want left, count want left ≤ min want left
  count_pos : ∀ want left, 0 < want → 0 < left → 0 < count want left

/-- A source that hands over all it can, as a file does. -/
def Fill.full : Fill := ⟨min, fun _ _ => Nat.le_refl _, fun _ _ hw hl => Nat.lt_min.2 ⟨hw, hl⟩⟩

/-- The buffers a read to the end reads into, one after another; none is empty. -/
structure Buffers where
  size : Nat → Nat
  size_pos : ∀ i, 0 < size i

/-- The buffers after the first. -/
def Buffers.rest (b : Buffers) : Buffers := ⟨fun i => b.size (i + 1), fun i => b.size_pos (i + 1)⟩

/-- How many bytes a read of at most `max` under `limit` gets from a source filling by `fill`
with `left` bytes unread: none under a limit already reached, and then the source is not
asked. -/
def granted (r : Reader) (fill : Fill) (left : Nat) (limit : Option Nat) (max : Nat) : Nat :=
  if limit.any (· ≤ r.consumed) then 0 else fill.count (r.window limit max) left

/-- Hands over the next `n` bytes of `source`. -/
def advance (r : Reader) (source : ByteArray) (n : Nat) : ByteArray × Reader :=
  (source.extract r.position (r.position + n), ⟨r.position + n, r.consumed + n⟩)

/-- One read of at most `max` bytes from `source`, filled by `fill`. -/
def readBy (r : Reader) (fill : Fill) (source : ByteArray) (limit : Option Nat) (max : Nat) :
    ByteArray × Reader :=
  r.advance source (r.granted fill (source.size - r.position) limit max)

theorem granted_le_left (r : Reader) (fill : Fill) (left : Nat) (limit : Option Nat) (max : Nat) :
    r.granted fill left limit max ≤ left := by
  unfold granted
  split
  · exact Nat.zero_le _
  · exact Nat.le_trans (fill.count_le _ _) (Nat.min_le_right _ _)

/-- Reads until a read delivers nothing, the `i`-th read into the `i`-th buffer and filled by
`fills i`. -/
def readToEndBy (r : Reader) (fills : Nat → Fill) (buffers : Buffers) (source : ByteArray)
    (limit : Option Nat) : ByteArray × Reader :=
  let n := r.granted (fills 0) (source.size - r.position) limit (buffers.size 0)
  if _ : n = 0 then (ByteArray.empty, r)
  else
    let rest := (r.advance source n).2.readToEndBy (fun i => fills (i + 1)) buffers.rest source limit
    ((r.advance source n).1 ++ rest.1, rest.2)
termination_by source.size - r.position
decreasing_by
  have := r.granted_le_left (fills 0) (source.size - r.position) limit (buffers.size 0)
  simp only [advance]
  omega

/-- The reader as shown in sentences. -/
def describe (r : Reader) (limit : Option Nat) : String :=
  "LimitedReader \x7b consumed: " ++ toString r.consumed ++ ", limit: " ++
    (match limit with
     | some l => "Some(" ++ toString l ++ ")"
     | none => "None") ++ " \x7d"

theorem read_consumed (r : Reader) (source : ByteArray) (limit : Option Nat) (max : Nat) :
    (r.read source limit max).2.consumed - r.consumed = (r.read source limit max).2.position - r.position := by
  simp [read]

end Reader

end ClaimStore
