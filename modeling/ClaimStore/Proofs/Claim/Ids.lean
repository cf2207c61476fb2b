import ClaimStore.Proofs.Places
import Mathlib.Data.Nat.Digits.Defs
import Mathlib.Data.List.Induction
/-!
# Creation times in claim ids

A fresh claim's id is its creation time in milliseconds, a dash and a counter. Reading the time
back looks at what stands before the first dash: an optional plus sign and a non-empty run of
decimal digits whose value fits in 64 bits, leading zeros allowed.

`RecordsTime` says this with the positional value of the digits, independently of the reader,
and `creationMillis?_eq_some_iff` shows that the reader accepts exactly those ids. From it: an
id made from any two 64-bit words gives its time back, different times or counters make
different ids, and a file named by such an id is aged by its name whatever the disk holds.

Main statement: `creation_time_round_trip`.
-/

set_option autoImplicit false

namespace ClaimStore.Claim

/-! ## Decimal words -/

/-- The value of a run of decimal digits written most significant first. -/
def digitsValue (ds : List Char) : Nat :=
  Nat.ofDigits 10 (ds.reverse.map fun c => c.toNat - '0'.toNat)

/-- `cs` spells the 64-bit word `t`: an optional plus sign, then a non-empty run of ASCII digits
whose value `t` is below `2 ^ 64`. -/
def SpellsWord (cs : List Char) (t : Nat) : Prop :=
  ∃ ds, (cs = ds ∨ cs = '+' :: ds) ∧ ds ≠ [] ∧ (∀ c ∈ ds, c.isDigit) ∧ digitsValue ds = t ∧
    t < 2 ^ 64

/-- The id `s` records the creation time `t`: it has a dash, something stands before the first
one, and that spells `t`. -/
def RecordsTime (s : String) (t : Nat) : Prop :=
  ∃ pre rest, s.toList = pre ++ '-' :: rest ∧ '-' ∉ pre ∧ pre ≠ [] ∧ SpellsWord pre t

theorem ofDigitChars_eq_digitsValue (ds : List Char) :
    Nat.ofDigitChars 10 ds 0 = digitsValue ds := by
  induction ds using List.reverseRecOn with
  | nil => rfl
  | append_singleton ds c ih =>
    have hlast : digitsValue (ds ++ [c]) = (c.toNat - '0'.toNat) + 10 * digitsValue ds := by
      rw [digitsValue, List.reverse_append, List.reverse_singleton, List.singleton_append,
        List.map_cons, Nat.ofDigits_cons]
      rfl
    rw [Nat.ofDigitChars_append, ih, Nat.ofDigitChars_cons, Nat.ofDigitChars_nil, hlast,
      Nat.add_comm]

theorem readWord?_eq_some_iff (cs : List Char) (t : Nat) :
    readWord? (String.ofList cs) = some t ↔ SpellsWord cs t := by
  simp only [readWord?, Number.readUnsigned?, Number.digitsValue, String.toList_ofList,
    ← Nat.ofDigitChars_eq_foldl, ofDigitChars_eq_digitsValue]
  split
  · simp [SpellsWord]
    grind
  · next cs hsign =>
    simp [SpellsWord]
    grind

/-! ## The first dash -/

/-- `a` first occurs in `l` at `p` exactly when `l` splits there around `a`. -/
theorem idxOf?_eq_some_iff_split {l : List Char} {a : Char} {p : Nat} :
    l.idxOf? a = some p ↔ ∃ pre rest, l = pre ++ a :: rest ∧ a ∉ pre ∧ pre.length = p := by
  induction l generalizing p with
  | nil => simp
  | cons x xs ih =>
    rw [List.idxOf?_cons]
    by_cases hx : x = a
    · subst hx
      simp only [beq_self_eq_true, if_true, Option.some.injEq]
      constructor
      · rintro rfl
        exact ⟨[], xs, rfl, by simp, rfl⟩
      · rintro ⟨pre, rest, hl, hn, rfl⟩
        cases pre with
        | nil => simp
        | cons y ys =>
          simp only [List.cons_append, List.cons.injEq] at hl
          exact absurd (hl.1 ▸ List.mem_cons_self) hn
    · simp only [beq_iff_eq, hx, if_false, Option.map_eq_some_iff, ih]
      constructor
      · rintro ⟨q, ⟨pre, rest, rfl, hn, rfl⟩, rfl⟩
        exact ⟨x :: pre, rest, rfl, by simp [Ne.symm hx, hn], rfl⟩
      · rintro ⟨pre, rest, hl, hn, rfl⟩
        cases pre with
        | nil =>
          simp only [List.nil_append, List.cons.injEq] at hl
          exact absurd hl.1 hx
        | cons y ys =>
          simp only [List.cons_append, List.cons.injEq] at hl
          obtain ⟨rfl, rfl⟩ := hl
          exact ⟨ys.length, ⟨ys, rest, rfl, fun h => hn (List.mem_cons_of_mem _ h), rfl⟩, rfl⟩

/-! ## Reading the time back -/

/-- An id gives a creation time back exactly when it records that time. -/
theorem creationMillis?_eq_some_iff (s : String) (t : Nat) :
    creationMillis? s = some t ↔ RecordsTime s t := by
  unfold creationMillis?
  split
  · next hnone =>
    refine ⟨nofun, fun ⟨pre, rest, hs, _⟩ => absurd ?_ (List.idxOf?_eq_none_iff.1 hnone)⟩
    exact hs ▸ List.mem_append_right pre List.mem_cons_self
  · next h0 =>
    refine ⟨nofun, fun ⟨pre, rest, hs, hn, hne, _⟩ => absurd ?_ hne⟩
    obtain ⟨pre', rest', hs', hn', hlen⟩ := idxOf?_eq_some_iff_split.1 h0
    rw [(Path.append_cons_inj_of_not_mem hn hn' (hs.symm.trans hs')).1,
      ← List.length_eq_zero_iff, hlen]
  · next p hp h =>
    obtain ⟨pre, rest, hs, hn, rfl⟩ := idxOf?_eq_some_iff_split.1 h
    rw [hs, List.take_left, readWord?_eq_some_iff]
    constructor
    · intro hw
      exact ⟨pre, rest, hs, hn, fun hnil => hp (by simp [hnil]), hw⟩
    · rintro ⟨pre', rest', hs', hn', -, hw⟩
      rwa [(Path.append_cons_inj_of_not_mem hn hn' (hs.symm.trans hs')).1]

theorem formatId_toList (ts idx : Nat) :
    (formatId ts idx).toList = Nat.toDigits 10 ts ++ '-' :: Nat.toDigits 10 idx := by
  simp [formatId]

theorem dash_not_mem_toDigits (n : Nat) : '-' ∉ Nat.toDigits 10 n := fun h =>
  absurd (Nat.isDigit_of_mem_toDigits (by decide) (by decide) h) (by decide)

theorem formatId_recordsTime (ts idx : Nat) (hts : ts < 2 ^ 64) :
    RecordsTime (formatId ts idx) ts := by
  have hdigits : ∀ c ∈ Nat.toDigits 10 ts, c.isDigit :=
    fun _ hc => Nat.isDigit_of_mem_toDigits (by decide) (by decide) hc
  have hvalue : digitsValue (Nat.toDigits 10 ts) = ts := by
    rw [← ofDigitChars_eq_digitsValue, Nat.ofDigitChars_ten_toDigits]
  exact ⟨_, _, formatId_toList ts idx, dash_not_mem_toDigits ts, Nat.toDigits_ne_nil,
    _, .inl rfl, Nat.toDigits_ne_nil, hdigits, hvalue, hts⟩

example : creationMillis? "+007-1" = some 7 := by decide

example : creationMillis? "18446744073709551616-1" = none := by decide +kernel

theorem lastModTime_of_recordsTime {path name : String} {t : Nat}
    (hn : Path.fileName? path = some name) (ht : RecordsTime name t) (d : FileSystem.Disk) :
    lastModTime d path = t := by
  simp [lastModTime, hn, (creationMillis?_eq_some_iff name t).2 ht]

/-- Claim ids give their creation time back: every id made from two 64-bit words gives its time
back, different times or counters make different ids, the ids that give a time back are exactly
those recording it, and a file named by one is aged by its name on every disk. -/
theorem creation_time_round_trip :
    (∀ ts idx : UInt64, creationMillis? (formatId ts.toNat idx.toNat) = some ts.toNat) ∧
    (∀ ts idx ts' idx' : Nat, formatId ts idx = formatId ts' idx' → ts = ts' ∧ idx = idx') ∧
    (∀ (s : String) (t : Nat), creationMillis? s = some t ↔ RecordsTime s t) ∧
    (∀ (path name : String) (t : Nat), Path.fileName? path = some name → RecordsTime name t →
      ∀ d : FileSystem.Disk, lastModTime d path = t) :=
  ⟨fun ts _ => (creationMillis?_eq_some_iff _ _).2 (formatId_recordsTime _ _ ts.toNat_lt),
    fun _ _ _ _ => Path.formatId_inj, creationMillis?_eq_some_iff,
    fun _ _ _ hn ht => lastModTime_of_recordsTime hn ht⟩

/-- An archived file named by the id made at 1700000000123 with counter 42 is that old on a
fresh disk, which holds no such file. -/
theorem stamped_archive_file_aged_by_name :
    Path.fileName? "c/0/archive/1700000000123-42" = some "1700000000123-42" ∧
      RecordsTime "1700000000123-42" 1700000000123 ∧
      lastModTime FileSystem.Disk.fresh "c/0/archive/1700000000123-42" = 1700000000123 := by
  have hname : Path.fileName? "c/0/archive/1700000000123-42" = some "1700000000123-42" := by
    decide +kernel
  have htime : RecordsTime "1700000000123-42" 1700000000123 :=
    (creation_time_round_trip.2.2.1 _ _).1 (by decide +kernel)
  exact ⟨hname, htime, creation_time_round_trip.2.2.2 _ _ _ hname htime _⟩

end ClaimStore.Claim
