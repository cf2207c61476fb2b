import ClaimStore.Gate
/-!
# The wait decision follows the freshest reading

A gate keeps one used-space figure and the time it was read, not the readings themselves. Its
contract keeps them all: a `Log` holds every probe reading taken, newest first, with its time
and result, beside the archived-file count and the release generation. In the log a wait check
with archiving on takes a new reading when there is no good one yet, when the newest good one
shows nothing used, or when it is a window old; a signal always takes one; and the decision is
that archived files exist and the newest good reading, this call's included, shows at least
the threshold in use (zero before any good reading).

`Holds g l` says the gate's figure, its time, its count and its generation are what the log
gives. Every call keeps it (`Holds.call`) and answers what the log answers, so along any run,
with any probe results at any times (`Holds.run`), the gate decides as the freshest reading
says; a fresh gate starts from the empty log (`holds_create`).

Main statement: `wait_decision_follows_freshest_reading`.
-/

set_option autoImplicit false

namespace ClaimStore.Gate

open ClaimStore.FileSystem

/-- A call of a gate's interface. The calls that may consult the probe carry the time they are
made at and what the probe answers then; a count is a 64-bit word. -/
inductive Call where
  | isWait (now : Nat) (reading : IoResult Nat)
  | signal (now : Nat) (reading : IoResult Nat)
  | releaseAll
  | setCount (n : UInt64)
  | increment
  | decrement

/-- Makes a call: the decision, for a wait check, and the gate after it. -/
def call (g : Gate) : Call → Option Bool × Gate
  | .isWait now r => (some (g.mustWait r now).1, (g.mustWait r now).2)
  | .signal now r => (none, g.signalReady r now)
  | .releaseAll => (none, g.releaseAll)
  | .setCount n => (none, g.setArchived n.toNat)
  | .increment => (none, g.incArchived)
  | .decrement => (none, g.decArchived)

/-- Makes calls one after another: the answers, and the gate after them. -/
def run (g : Gate) : List Call → List (Option Bool) × Gate
  | [] => ([], g)
  | c :: cs => ((g.call c).1 :: (run (g.call c).2 cs).1, (run (g.call c).2 cs).2)

/-! ## The contract -/

/-- The readings taken, newest first, each with its time; the archived count; the release
generation. -/
structure Log where
  readings : List (Nat × IoResult Nat)
  count : Nat
  generation : Nat

namespace Log

/-- No reading, no archived file, no release. -/
def empty : Log := ⟨[], 0, 0⟩

/-- The time and the usable space of a good reading. -/
def good : Nat × IoResult Nat → Option (Nat × Nat)
  | (t, .ok free) => some (t, free)
  | (_, .error _) => none

/-- The newest good reading. -/
def freshest (l : Log) : Option (Nat × Nat) := l.readings.findSome? good

/-- The bytes in use by the newest good reading, zero before any. -/
def used (capacity : Nat) (l : Log) : Nat :=
  match l.freshest with
  | some (_, free) => capacity - free
  | none => 0

/-- Whether a wait check at `now` takes a reading: none good yet, a figure of zero, or one a
window old. -/
def due (capacity now : Nat) (l : Log) : Bool :=
  match l.freshest with
  | some (t, free) => capacity - free == 0 || decide (usageWindow ≤ now - t)
  | none => true

/-- Takes a reading at `now`. -/
def take (l : Log) (now : Nat) (r : IoResult Nat) : Log := { l with readings := (now, r) :: l.readings }

/-- What a call answers and leaves in the log of a gate with archiving `enabled`, `capacity`
and `threshold`. -/
def call (enabled : Bool) (capacity threshold : Nat) (l : Log) : Call → Option Bool × Log
  | .isWait now r =>
    if enabled then
      let l' := if l.due capacity now then l.take now r else l
      (some (decide (threshold ≤ l'.used capacity) && decide (0 < l'.count)), l')
    else (some false, l)
  | .signal now r => (none, { l.take now r with generation := (l.generation + 1) % 2 ^ 64 })
  | .releaseAll => (none, { l with generation := (l.generation + 1) % 2 ^ 64 })
  | .setCount n => (none, { l with count := n.toNat })
  | .increment => (none, { l with count := (l.count + 1) % 2 ^ 64 })
  | .decrement => (none, { l with count := l.count - 1 })

/-- Makes calls one after another on a log. -/
def run (enabled : Bool) (capacity threshold : Nat) (l : Log) : List Call → List (Option Bool) × Log
  | [] => ([], l)
  | c :: cs =>
    ((l.call enabled capacity threshold c).1 ::
        ((l.call enabled capacity threshold c).2.run enabled capacity threshold cs).1,
      ((l.call enabled capacity threshold c).2.run enabled capacity threshold cs).2)

theorem freshest_take_ok (l : Log) (now free : Nat) :
    (l.take now (.ok free)).freshest = some (now, free) := rfl

theorem freshest_take_error (l : Log) (now : Nat) (e : IoError) :
    (l.take now (.error e)).freshest = l.freshest := rfl

end Log

/-! ## A gate holds its log -/

/-- The gate keeps what the log gives: the newest good reading's figure and time, the count
and the generation. -/
structure Holds (g : Gate) (l : Log) : Prop where
  used : g.used = l.used g.capacity
  readAt : g.readAt = l.freshest.map Prod.fst
  count : g.archived = l.count
  generation : g.generation = l.generation

@[simp] theorem record_capacity (g : Gate) (r : IoResult Nat) (now : Nat) :
    (g.record r now).capacity = g.capacity := by
  cases r <;> rfl

@[simp] theorem record_archiveEnabled (g : Gate) (r : IoResult Nat) (now : Nat) :
    (g.record r now).archiveEnabled = g.archiveEnabled := by
  cases r <;> rfl

@[simp] theorem record_threshold (g : Gate) (r : IoResult Nat) (now : Nat) :
    (g.record r now).threshold = g.threshold := by
  cases r <;> rfl

@[simp] theorem record_archived (g : Gate) (r : IoResult Nat) (now : Nat) :
    (g.record r now).archived = g.archived := by
  cases r <;> rfl

@[simp] theorem record_generation (g : Gate) (r : IoResult Nat) (now : Nat) :
    (g.record r now).generation = g.generation := by
  cases r <;> rfl

theorem holds_create (name : String) (enabled : Bool) (capacity : Nat) (ratio : Float) :
    Holds (create name enabled capacity ratio) Log.empty :=
  ⟨rfl, rfl, rfl, rfl⟩

theorem Holds.record {g : Gate} {l : Log} (h : Holds g l) (r : IoResult Nat) (now : Nat) :
    Holds (g.record r now) (l.take now r) := by
  cases r with
  | ok free =>
    exact ⟨by simp [Gate.record, Log.used, Log.freshest_take_ok],
      by simp [Gate.record, Log.freshest_take_ok], h.count, h.generation⟩
  | error e =>
    simp only [Gate.record]
    exact ⟨by rw [h.used, Log.used, Log.used, Log.freshest_take_error],
      by rw [h.readAt, Log.freshest_take_error], h.count, h.generation⟩

theorem Holds.stale_eq {g : Gate} {l : Log} (h : Holds g l) (now : Nat) :
    g.stale now = l.due g.capacity now := by
  unfold stale Log.due
  rw [h.used, h.readAt]
  unfold Log.used
  cases l.freshest with
  | none => simp
  | some p => simp

/-- One call answers what the log answers and keeps the gate holding the log. -/
theorem Holds.call {g : Gate} {l : Log} (h : Holds g l) (c : Call) :
    (g.call c).1 = (l.call g.archiveEnabled g.capacity g.threshold c).1 ∧
      Holds (g.call c).2 (l.call g.archiveEnabled g.capacity g.threshold c).2 := by
  cases c with
  | isWait now r =>
    unfold Gate.call Log.call mustWait
    cases henabled : g.archiveEnabled
    · exact ⟨rfl, h⟩
    · simp only [Bool.not_true, Bool.false_eq_true, if_false, if_true]
      have hnext : Holds (if g.stale now then g.record r now else g)
          (if l.due g.capacity now then l.take now r else l) := by
        rw [h.stale_eq]
        split
        · exact h.record r now
        · exact h
      have hcap : (if g.stale now then g.record r now else g).capacity = g.capacity := by
        split <;> simp
      have hthr : (if g.stale now then g.record r now else g).threshold = g.threshold := by
        split <;> simp
      generalize (if g.stale now then g.record r now else g) = g' at hnext hcap hthr ⊢
      generalize (if l.due g.capacity now then l.take now r else l) = l' at hnext ⊢
      refine ⟨?_, hnext⟩
      rw [hnext.used, hnext.count, hcap, hthr]
  | signal now r =>
    have hr := h.record r now
    exact ⟨rfl, ⟨hr.used, hr.readAt, hr.count,
      by simp [Gate.call, Log.call, signalReady, Gate.releaseAll, Log.take, h.generation]⟩⟩
  | releaseAll =>
    exact ⟨rfl, ⟨h.used, h.readAt, h.count,
      by simp [Gate.call, Log.call, Gate.releaseAll, h.generation]⟩⟩
  | setCount n =>
    exact ⟨rfl, ⟨h.used, h.readAt,
      by simp [Gate.call, Log.call, setArchived, Nat.mod_eq_of_lt n.toNat_lt], h.generation⟩⟩
  | increment =>
    exact ⟨rfl, ⟨h.used, h.readAt, by simp [Gate.call, Log.call, incArchived, setArchived, h.count],
      h.generation⟩⟩
  | decrement =>
    exact ⟨rfl, ⟨h.used, h.readAt, by simp [Gate.call, Log.call, decArchived, h.count],
      h.generation⟩⟩

theorem call_settings (g : Gate) (c : Call) :
    (g.call c).2.archiveEnabled = g.archiveEnabled ∧ (g.call c).2.capacity = g.capacity ∧
      (g.call c).2.threshold = g.threshold := by
  cases c with
  | isWait now r =>
    simp only [Gate.call, mustWait]
    split
    · exact ⟨rfl, rfl, rfl⟩
    · split <;> simp
  | signal now r => simp [Gate.call, signalReady, Gate.releaseAll]
  | releaseAll | setCount _ | increment | decrement => exact ⟨rfl, rfl, rfl⟩

theorem Holds.run {g : Gate} {l : Log} (h : Holds g l) (cs : List Call) :
    (g.run cs).1 = (l.run g.archiveEnabled g.capacity g.threshold cs).1 ∧
      Holds (g.run cs).2 (l.run g.archiveEnabled g.capacity g.threshold cs).2 := by
  induction cs generalizing g l with
  | nil => exact ⟨rfl, h⟩
  | cons c cs ih =>
    obtain ⟨hanswer, hnext⟩ := h.call c
    obtain ⟨henabled, hcap, hthr⟩ := call_settings g c
    obtain ⟨hrest, hholds⟩ := ih hnext
    rw [henabled, hcap, hthr] at hrest hholds
    exact ⟨by simp only [Gate.run, Log.run, hanswer, hrest], hholds⟩

/-- With any probe results at any times, a fresh gate answers every wait check as its log of
readings says: archiving on, archived files counted, and the threshold reached by the newest
good reading, the one the check takes included. Its figure and the figure's time are that
reading's; its count is the fold of the updates, wrapping upwards and stopping at zero
downwards; and every signal or release moves its generation on by one, modulo `2 ^ 64`. -/
theorem wait_decision_follows_freshest_reading (name : String) (enabled : Bool) (capacity : Nat)
    (ratio : Float) (calls : List Call) :
    ((create name enabled capacity ratio).run calls).1 =
        (Log.empty.run enabled capacity (create name enabled capacity ratio).threshold calls).1 ∧
      Holds ((create name enabled capacity ratio).run calls).2
        (Log.empty.run enabled capacity (create name enabled capacity ratio).threshold calls).2 :=
  (holds_create name enabled capacity ratio).run calls

/-- The figure read while 900 of 1000 bytes were free stands until a signal reads again. -/
example : (run ⟨"default", true, 1000, 520, 0, 0, none, 0⟩
    [.increment, .isWait 0 (.ok 900), .isWait 0 (.ok 100), .signal 0 (.ok 100),
      .isWait 0 (.ok 100)]).1 = [none, some false, some false, none, some true] := by
  decide

end ClaimStore.Gate
