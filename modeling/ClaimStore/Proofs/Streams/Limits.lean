import ClaimStore.Reader
/-!
# What a limited reader delivers

A reader hands out the bytes of a source front to back and asks the source for no more than the
limit in force still allows. Whatever the source hands each read (any count up to what was asked
and what is left, none only when asked for none or at the end) and however the limit changes
between calls, everything delivered is a prefix of the source, and `consumed` counts it
(`runCalls_advance`). A read under a limit already reached delivers nothing and leaves the source
alone; any other read stays within the limit. A read to the end delivers exactly what the limit
allows (`readToEndBy_eq`), however the source splits it, and the file reader's single read to the
end is one of these (`readToEnd_eq_readToEndBy`).

Main statement: `limited_reader_never_passes_limit`.
-/

set_option autoImplicit false

namespace ClaimStore.Reader

/-! ## Handing over bytes -/

theorem advance_zero (r : Reader) (source : ByteArray) : r.advance source 0 = (ByteArray.empty, r) := by
  simp [advance, ByteArray.extract_same]

theorem advance_add (r : Reader) (source : ByteArray) (m n : Nat) :
    ((r.advance source m).1 ++ ((r.advance source m).2.advance source n).1,
      ((r.advance source m).2.advance source n).2) = r.advance source (m + n) := by
  simp only [advance, ByteArray.extract_append_extract, Nat.add_assoc]
  simp

/-- What a read under `limit` may still take of `left` unread bytes. -/
def allowance (r : Reader) (left : Nat) : Option Nat → Nat
  | some l => min (l - r.consumed) left
  | none => left

theorem allowance_le (r : Reader) (left : Nat) (limit : Option Nat) : r.allowance left limit ≤ left := by
  cases limit with
  | none => exact Nat.le_refl _
  | some l => exact Nat.min_le_right _ _

theorem granted_le_allowance (r : Reader) (fill : Fill) (left : Nat) (limit : Option Nat) (want : Nat) :
    r.granted fill left limit want ≤ r.allowance left limit := by
  unfold granted
  split
  · exact Nat.zero_le _
  · have := fill.count_le (r.window limit want) left
    cases limit <;> simp only [window, allowance] at this ⊢ <;> omega

/-- Into a buffer that is not empty, a read gets nothing exactly when the limit allows
nothing. -/
theorem granted_eq_zero (r : Reader) (fill : Fill) (left : Nat) (limit : Option Nat) {want : Nat}
    (hwant : 0 < want) : r.granted fill left limit want = 0 ↔ r.allowance left limit = 0 := by
  refine ⟨fun h => ?_, fun h => Nat.eq_zero_of_le_zero (h ▸ r.granted_le_allowance fill left limit want)⟩
  unfold granted at h
  split at h
  · -- the limit is reached
    rename_i hr
    cases limit with
    | none => simp at hr
    | some l =>
      simp only [Option.any_some, decide_eq_true_eq] at hr
      simp only [allowance]
      omega
  · -- the source hands over nothing only when asked for nothing or when nothing is left
    rename_i hr
    refine Classical.byContradiction fun hne => ?_
    have hw : 0 < r.window limit want := by
      cases limit with
      | none => exact hwant
      | some l =>
        simp only [Option.any_some, decide_eq_true_eq] at hr
        simp only [window]
        omega
    have hl : 0 < left := Nat.lt_of_lt_of_le (Nat.pos_of_ne_zero hne) (r.allowance_le left limit)
    exact absurd h (Nat.pos_iff_ne_zero.1 (fill.count_pos _ _ hw hl))

/-! ## One read -/

section Read

variable {r : Reader} {source : ByteArray}

theorem readBy_of_reached {L : Nat} (h : L ≤ r.consumed) (fill : Fill) (want : Nat) :
    r.readBy fill source (some L) want = (ByteArray.empty, r) := by
  have hg : r.granted fill (source.size - r.position) (some L) want = 0 := by simp [granted, h]
  rw [readBy, hg, advance_zero]

theorem readBy_consumed_le (fill : Fill) (L want : Nat) :
    (r.readBy fill source (some L) want).2.consumed ≤ max r.consumed L := by
  have := r.granted_le_allowance fill (source.size - r.position) (some L) want
  simp only [readBy, advance, allowance] at this ⊢
  omega

theorem read_eq_readBy (r : Reader) (source : ByteArray) (limit : Option Nat) (want : Nat) :
    r.read source limit want = r.readBy Fill.full source limit want := by
  unfold read readBy granted
  split
  · -- under a limit already reached the window is empty
    rename_i h
    obtain ⟨l, rfl, hl⟩ : ∃ l, limit = some l ∧ l ≤ r.consumed := by
      cases limit <;> simp_all
    have hw : r.window (some l) want = 0 := by simp only [window]; omega
    simp [hw, advance]
  · rfl

end Read

/-! ## Reading to the end -/

theorem readToEndBy_eq (r : Reader) (fills : Nat → Fill) (buffers : Buffers) (source : ByteArray)
    (limit : Option Nat) :
    r.readToEndBy fills buffers source limit =
      r.advance source (r.allowance (source.size - r.position) limit) := by
  fun_induction r.readToEndBy fills buffers source limit with
  | case1 r fills buffers n hn =>
    rw [(r.granted_eq_zero _ _ _ (buffers.size_pos 0)).1 hn, advance_zero]
  | case2 r fills buffers n hn rest ih =>
    have hle := r.granted_le_allowance (fills 0) (source.size - r.position) limit (buffers.size 0)
    have hrest : (r.advance source n).2.allowance (source.size - (r.advance source n).2.position) limit =
        r.allowance (source.size - r.position) limit - n := by
      cases limit <;> simp only [allowance, advance] at hle ⊢ <;> omega
    have hsum : n + (r.allowance (source.size - r.position) limit - n) =
        r.allowance (source.size - r.position) limit := by
      simp only [n] at hle ⊢
      omega
    simp only [rest]
    rw [ih, hrest, advance_add, hsum]

theorem readToEnd_eq_readToEndBy (r : Reader) (source : ByteArray) (limit : Option Nat)
    (fills : Nat → Fill) (buffers : Buffers) :
    r.readToEnd source limit = r.readToEndBy fills buffers source limit := by
  rw [readToEndBy_eq, readToEnd, read_eq_readBy, readBy]
  congr 1
  unfold granted
  split
  · rename_i h
    obtain ⟨l, rfl, hl⟩ : ∃ l, limit = some l ∧ l ≤ r.consumed := by
      cases limit <;> simp_all
    simp only [allowance]
    omega
  · cases limit <;> simp only [Fill.full, window, allowance] <;> omega

/-! ## Runs of calls -/

/-- A call on a reader, under the limit in force when it is made: one read of at most `want`
bytes filled by `fill`, or a read to the end. -/
inductive Call where
  | read (limit : Option Nat) (want : Nat) (fill : Fill)
  | readToEnd (limit : Option Nat) (fills : Nat → Fill) (buffers : Buffers)

/-- What a call delivers, and the reader after it. -/
def Call.run (source : ByteArray) (r : Reader) : Call → ByteArray × Reader
  | .read limit want fill => r.readBy fill source limit want
  | .readToEnd limit fills buffers => r.readToEndBy fills buffers source limit

/-- Makes calls one after another; answers everything they delivered, in order, and the
reader. -/
def runCalls (source : ByteArray) (r : Reader) : List Call → ByteArray × Reader
  | [] => (ByteArray.empty, r)
  | c :: cs =>
    let next := runCalls source (c.run source r).2 cs
    ((c.run source r).1 ++ next.1, next.2)

theorem Call.run_advance (source : ByteArray) (r : Reader) (c : Call) :
    ∃ n ≤ source.size - r.position, c.run source r = r.advance source n := by
  cases c with
  | read limit want fill => exact ⟨_, r.granted_le_left fill _ limit want, rfl⟩
  | readToEnd limit fills buffers =>
    exact ⟨_, r.allowance_le _ limit, readToEndBy_eq r fills buffers source limit⟩

theorem runCalls_advance (source : ByteArray) (r : Reader) (cs : List Call) :
    ∃ n ≤ source.size - r.position, runCalls source r cs = r.advance source n := by
  induction cs generalizing r with
  | nil => exact ⟨0, Nat.zero_le _, (advance_zero r source).symm⟩
  | cons c cs ih =>
    obtain ⟨m, hm, hc⟩ := c.run_advance source r
    obtain ⟨n, hn, hrest⟩ := ih (c.run source r).2
    rw [hc] at hn hrest
    refine ⟨m + n, ?_, ?_⟩
    · simp only [advance] at hn
      omega
    · simp only [runCalls, hc, hrest, advance_add]

theorem runCalls_append (source : ByteArray) (r : Reader) (cs ds : List Call) :
    runCalls source r (cs ++ ds) =
      ((runCalls source r cs).1 ++ (runCalls source (runCalls source r cs).2 ds).1,
        (runCalls source (runCalls source r cs).2 ds).2) := by
  induction cs generalizing r with
  | nil => simp [runCalls, ByteArray.empty_append]
  | cons c cs ih => simp [runCalls, ih, ByteArray.append_assoc]

/-! ## From where a reader starts -/

theorem extract_start_sub (source : ByteArray) (start : Nat) :
    source.extract start (start + (source.size - start)) = source.extract start source.size := by
  by_cases h : start ≤ source.size
  · rw [Nat.add_sub_cancel' h]
  · rw [ByteArray.extract_eq_empty_iff.2 (by omega), ByteArray.extract_eq_empty_iff.2 (by omega)]

theorem runCalls_start (source : ByteArray) (start : Nat) (cs : List Call) :
    ∃ rest, (runCalls source (Reader.start start) cs).1 ++ rest = source.extract start source.size ∧
      (runCalls source (Reader.start start) cs).1.size =
        (runCalls source (Reader.start start) cs).2.consumed := by
  obtain ⟨n, hn, h⟩ := runCalls_advance source (Reader.start start) cs
  simp only [Reader.start] at hn
  rw [h]
  simp only [advance, Reader.start, ByteArray.size_extract, Nat.zero_add]
  refine ⟨source.extract (start + n) source.size, ?_, by omega⟩
  by_cases hs : start ≤ source.size
  · exact (ByteArray.extract_eq_extract_append_extract (start + n) (by omega) (by omega)).symm
  · obtain rfl : n = 0 := by omega
    simp only [Nat.add_zero, ByteArray.extract_same, ByteArray.empty_append]

/-- How far into `len` bytes a read to the end under a limit reaches from the start: up to the
limit, or to the end. -/
def reach (len : Nat) : Option Nat → Nat
  | some l => min l len
  | none => len

/-- Whether a limit is at most another; no limit at all is larger than any. -/
def limitLE (a b : Option Nat) : Bool := b.all fun y => a.any (· ≤ y)

theorem reach_le_of_limitLE (len : Nat) {a b : Option Nat} (h : limitLE a b) :
    reach len a ≤ reach len b := by
  cases b with
  | none => cases a <;> simp only [reach] <;> omega
  | some y =>
    cases a with
    | none => simp [limitLE] at h
    | some x =>
      simp only [limitLE, Option.all_some, Option.any_some, decide_eq_true_eq] at h
      simp only [reach]
      omega

theorem readToEndBy_consumed {r : Reader} {start : Nat} (hpos : r.position = start + r.consumed)
    (fills : Nat → Fill) (buffers : Buffers) (source : ByteArray) (limit : Option Nat) :
    (r.readToEndBy fills buffers source limit).2.consumed =
      max r.consumed (reach (source.size - start) limit) ∧
    (r.readToEndBy fills buffers source limit).2.position =
      start + (r.readToEndBy fills buffers source limit).2.consumed := by
  rw [readToEndBy_eq]
  cases limit <;> simp only [advance, allowance, reach, hpos] <;> omega

theorem readToEndBy_start (source : ByteArray) (start : Nat) (fills : Nat → Fill) (buffers : Buffers)
    (limit : Option Nat) :
    ((Reader.start start).readToEndBy fills buffers source limit).1 =
      source.extract start (start + reach (source.size - start) limit) := by
  rw [readToEndBy_eq]
  cases limit <;> simp [advance, allowance, reach, Reader.start]

/-- The call of a read to the end under a limit, with how the source fills its reads and the
buffers it reads into. -/
def Call.ofEnd (e : Option Nat × (Nat → Fill) × Buffers) : Call := .readToEnd e.1 e.2.1 e.2.2

theorem runCalls_ends_consumed_le (source : ByteArray) {start B : Nat}
    (ends : List (Option Nat × (Nat → Fill) × Buffers))
    (hB : ∀ e ∈ ends, reach (source.size - start) e.1 ≤ B) (r : Reader)
    (hpos : r.position = start + r.consumed) (hr : r.consumed ≤ B) :
    (runCalls source r (ends.map Call.ofEnd)).2.consumed ≤ B ∧
      (runCalls source r (ends.map Call.ofEnd)).2.position =
        start + (runCalls source r (ends.map Call.ofEnd)).2.consumed := by
  induction ends generalizing r with
  | nil => exact ⟨hr, hpos⟩
  | cons e ends ih =>
    obtain ⟨hc, hp⟩ := readToEndBy_consumed hpos e.2.1 e.2.2 source e.1
    have he := hB e List.mem_cons_self
    exact ih (fun e' he' => hB e' (List.mem_cons_of_mem e he')) _ hp (by
      simp only [Call.run, Call.ofEnd] at hc ⊢
      omega)

/-- Reads to the end from the start under limits that never fall deliver, in all, the first
bytes from `start` that the last limit lets the reader reach. -/
theorem runCalls_rising_ends (source : ByteArray) (start : Nat)
    (ends : List (Option Nat × (Nat → Fill) × Buffers)) (last : Option Nat × (Nat → Fill) × Buffers)
    (hrise : ((ends ++ [last]).map (·.1)).Pairwise (fun a b => limitLE a b)) :
    (runCalls source (Reader.start start) ((ends ++ [last]).map Call.ofEnd)).1 =
      source.extract start (start + reach (source.size - start) last.1) := by
  have hB : ∀ e ∈ ends, reach (source.size - start) e.1 ≤ reach (source.size - start) last.1 := by
    intro e he
    rw [List.map_append, List.pairwise_append] at hrise
    exact reach_le_of_limitLE _ (hrise.2.2 e.1 (List.mem_map_of_mem he) last.1 (by simp))
  obtain ⟨hle, hpos⟩ := runCalls_ends_consumed_le source ends hB (Reader.start start) rfl
    (Nat.zero_le _)
  obtain ⟨hc, -⟩ := readToEndBy_consumed hpos last.2.1 last.2.2 source last.1
  obtain ⟨n, -, hrun⟩ := runCalls_advance source (Reader.start start)
    ((ends ++ [last]).map Call.ofEnd)
  have hlast : (runCalls source (Reader.start start) ((ends ++ [last]).map Call.ofEnd)).2.consumed =
      reach (source.size - start) last.1 := by
    rw [List.map_append, runCalls_append]
    simp only [List.map_cons, List.map_nil, runCalls, Call.run, Call.ofEnd]
    rw [hc]
    exact Nat.max_eq_right hle
  rw [hrun] at hlast ⊢
  simp only [advance, Reader.start, Nat.zero_add] at hlast ⊢
  rw [hlast]

/-! ## The reader's promise -/

/-- A limited reader delivers a prefix of its source and never passes a limit in force. Over any
source, under limits that may change at every call: what a run of calls delivers from `start` on
is the first bytes of the source from there, as many as `consumed` counts; a read under a limit
already reached delivers nothing and leaves the reader as it was, whatever the source would
hand over, and any other read stays within the limit; a read to the end from the start delivers
the first `min len L` bytes under `some L`, and all of them under no limit; and reads to the end
under limits that never fall deliver, in all, the first bytes that the last limit reaches. -/
theorem limited_reader_never_passes_limit (source : ByteArray) (start : Nat) :
    (∀ cs : List Call, ∃ rest,
      (runCalls source (Reader.start start) cs).1 ++ rest = source.extract start source.size ∧
      (runCalls source (Reader.start start) cs).1.size =
        (runCalls source (Reader.start start) cs).2.consumed) ∧
    (∀ (r : Reader) (fill : Fill) (L want : Nat), L ≤ r.consumed →
      r.readBy fill source (some L) want = (ByteArray.empty, r)) ∧
    (∀ (r : Reader) (fill : Fill) (L want : Nat), r.consumed < L →
      (r.readBy fill source (some L) want).2.consumed ≤ L) ∧
    (∀ (fills : Nat → Fill) (buffers : Buffers) (L : Nat),
      ((Reader.start start).readToEndBy fills buffers source (some L)).1 =
        source.extract start (start + min (source.size - start) L)) ∧
    (∀ (fills : Nat → Fill) (buffers : Buffers),
      ((Reader.start start).readToEndBy fills buffers source none).1 =
        source.extract start source.size) ∧
    (∀ (ends : List (Option Nat × (Nat → Fill) × Buffers))
        (last : Option Nat × (Nat → Fill) × Buffers),
      ((ends ++ [last]).map (·.1)).Pairwise (fun a b => limitLE a b) →
      (runCalls source (Reader.start start) ((ends ++ [last]).map Call.ofEnd)).1 =
        source.extract start (start + reach (source.size - start) last.1)) := by
  refine ⟨runCalls_start source start, fun r fill L want h => readBy_of_reached h fill want,
    fun r fill L want h => ?_, fun fills buffers L => ?_, fun fills buffers => ?_,
    runCalls_rising_ends source start⟩
  · have : (r.readBy fill source (some L) want).2.consumed ≤ max r.consumed L :=
      readBy_consumed_le fill L want
    omega
  · rw [readToEndBy_start, reach, Nat.min_comm]
  · rw [readToEndBy_start, reach, extract_start_sub]

/-- One-byte buffers, each filled as far as the source can. -/
def byteAtATime : Option Nat → Option Nat × (Nat → Fill) × Buffers :=
  fun limit => (limit, fun _ => Fill.full, ⟨fun _ => 1, fun _ => Nat.one_pos⟩)

/-- Three bytes read to the end one byte at a time, first under a limit of one and then under
none, are delivered in full. -/
theorem rising_limits_deliver_all :
    (([byteAtATime (some 1)] ++ [byteAtATime none]).map (·.1)).Pairwise (fun a b => limitLE a b) ∧
      (runCalls ⟨#[7, 8, 9]⟩ (Reader.start 0)
        (([byteAtATime (some 1)] ++ [byteAtATime none]).map Call.ofEnd)).1 = ⟨#[7, 8, 9]⟩ := by
  have hrise : (([byteAtATime (some 1)] ++ [byteAtATime none]).map (·.1)).Pairwise
      (fun a b => limitLE a b) := by decide
  refine ⟨hrise, ?_⟩
  rw [(limited_reader_never_passes_limit ⟨#[7, 8, 9]⟩ 0).2.2.2.2.2 _ _ hrise]
  decide

end ClaimStore.Reader
