import Mathlib.Data.String.Basic
import ClaimStore.Proofs.Config.Percentages
/-!
# Durations and data sizes

A duration or a data size is written as a number part and a unit. Trimmed of blanks, the text
splits where its first character that is neither an ASCII digit nor a point stands (`SplitsAt`):
the number part before, the rest after. The number part is read as a decimal when it has at
least one digit and at most one point (`Number.IsDecimal`); its value is the double nearest to
the digits read without the point over ten to the number of digits after it
(`Number.decimalValue`), and it is refused when that double is infinite, that is when the exact
value reaches `2 ^ 1024 - 2 ^ 970` (`Number.FitsDouble`). The rest, trimmed, must spell a unit of
the reader's table in any ASCII case (`Spells`): it gives the nanoseconds, or the bytes, in one
of that unit.

So each reader accepts exactly its grammar, answers the value times the unit's amount, rounded
(durations) or truncated (sizes) to a 64-bit count, and refuses every other text, with the number
part's error when the number part does not read and with the unit's otherwise
(`parseDuration_cases`, `parseDataSize_cases`).

Main statement: `quantities_accept_exactly_their_grammar`.
-/

set_option autoImplicit false

namespace ClaimStore.Number

/-! ## Decimals -/

/-- The digits of a decimal read without its point. -/
def mantissa (N : List Char) : Nat := Claim.digitsValue (N.filter Char.isDigit)

/-- How many characters stand after a decimal's point; none without a point. -/
def places (N : List Char) : Nat := (N.dropWhile (· ≠ '.')).length - 1

/-- A number part that reads as a decimal: at least one digit and at most one point. -/
def IsDecimal (N : List Char) : Prop := (∃ c ∈ N, c.isDigit = true) ∧ N.count '.' ≤ 1

instance (N : List Char) : Decidable (IsDecimal N) :=
  inferInstanceAs (Decidable ((∃ c ∈ N, c.isDigit = true) ∧ N.count '.' ≤ 1))

/-- The double nearest to a decimal. -/
def decimalValue (N : List Char) : Float := Float.ofScientific (mantissa N) true (places N)

/-- A decimal whose exact value lies below the least value a double rounds to infinity. -/
def FitsDouble (N : List Char) : Prop := mantissa N < doubleOverflow * 10 ^ places N

instance (N : List Char) : Decidable (FitsDouble N) :=
  inferInstanceAs (Decidable (mantissa N < doubleOverflow * 10 ^ places N))

section Digits

variable {W F : List Char}

theorem point_not_digit : '.'.isDigit = false := by decide

theorem count_point_of_digits (hW : ∀ c ∈ W, c.isDigit = true) : W.count '.' = 0 :=
  List.count_eq_zero.2 fun h => by simpa [point_not_digit] using hW '.' h

theorem filter_digits (hW : ∀ c ∈ W, c.isDigit = true) : W.filter Char.isDigit = W :=
  List.filter_eq_self.2 hW

theorem dropWhile_point_of_digits (hW : ∀ c ∈ W, c.isDigit = true) (rest : List Char) :
    (W ++ rest).dropWhile (· ≠ '.') = rest.dropWhile (· ≠ '.') :=
  List.dropWhile_append_of_pos fun c hc => by
    have := hW c hc
    simp only [ne_eq, decide_eq_true_eq]
    rintro rfl
    simp [point_not_digit] at this

theorem mantissa_places_of_digits (hW : ∀ c ∈ W, c.isDigit = true) :
    mantissa W = Claim.digitsValue W ∧ places W = 0 := by
  refine ⟨by rw [mantissa, filter_digits hW], ?_⟩
  have h := dropWhile_point_of_digits hW []
  rw [List.append_nil] at h
  rw [places, h, List.dropWhile_nil, List.length_nil]

theorem mantissa_places_of_point (hW : ∀ c ∈ W, c.isDigit = true) (hF : ∀ c ∈ F, c.isDigit = true) :
    mantissa (W ++ '.' :: F) = Claim.digitsValue (W ++ F) ∧ places (W ++ '.' :: F) = F.length := by
  constructor
  · rw [mantissa, List.filter_append, List.filter_cons, filter_digits hW, filter_digits hF]
    simp [point_not_digit]
  · rw [places, dropWhile_point_of_digits hW]
    simp

end Digits

/-- Reading a number part of digits and points: it splits into the digits before and after its
point exactly when it is a decimal, and then the digits make its mantissa and those after the
point its places. -/
theorem splitDecimal_cases {N : List Char} (hN : ∀ c ∈ N, c.isDigit = true ∨ c = '.') :
    (IsDecimal N ∧ ∃ whole frac, splitDecimal N = some (whole, frac) ∧
      digitsValue (whole ++ frac) = mantissa N ∧ frac.length = places N) ∨
    (¬ IsDecimal N ∧ splitDecimal N = none) := by
  have hW : ∀ c ∈ N.takeWhile Char.isDigit, c.isDigit = true :=
    List.all_eq_true.1 List.all_takeWhile
  have hD : ∀ c F, N.dropWhile Char.isDigit = c :: F → c.isDigit = false := fun c F h => by
    simpa [h] using List.head_dropWhile_not Char.isDigit (l := N) (by simp [h])
  have hsplit := List.takeWhile_append_dropWhile (p := Char.isDigit) (l := N)
  unfold splitDecimal
  dsimp only
  generalize N.takeWhile Char.isDigit = W at hW hsplit ⊢
  generalize N.dropWhile Char.isDigit = D at hD hsplit ⊢
  subst hsplit
  have hcountW := count_point_of_digits hW
  cases D with
  | nil =>
    obtain ⟨hm, hp⟩ := mantissa_places_of_digits hW
    simp only [List.append_nil] at hN ⊢
    by_cases hWe : W = []
    · -- nothing at all, so no digit
      subst hWe
      exact .inr ⟨fun h => by simpa using h.1, rfl⟩
    · obtain ⟨c, rest, rfl⟩ := List.exists_cons_of_ne_nil hWe
      refine .inl ⟨⟨⟨c, List.mem_cons_self, hW c List.mem_cons_self⟩, by omega⟩, c :: rest, [],
        by simp, ?_, by rw [hp]; rfl⟩
      rw [List.append_nil, digitsValue_eq, hm]
  | cons c F =>
    have hc : c = '.' := by
      rcases hN c (by simp) with h | h
      · rw [hD c F rfl] at h
        cases h
      · exact h
    subst hc
    have hcount : (W ++ '.' :: F).count '.' = F.count '.' + 1 := by
      simp [List.count_append, hcountW]
    simp only [Bool.and_eq_true, Bool.not_eq_true', Bool.and_eq_false_imp, List.isEmpty_iff]
    by_cases hall : F.all Char.isDigit = true
    · have hF : ∀ c ∈ F, c.isDigit = true := List.all_eq_true.1 hall
      obtain ⟨hm, hp⟩ := mantissa_places_of_point hW hF
      by_cases hempty : W = [] ∧ F = []
      · -- the point alone has no digit
        obtain ⟨rfl, rfl⟩ := hempty
        refine .inr ⟨fun h => ?_, by simp⟩
        obtain ⟨c, hc, hd⟩ := h.1
        simp only [List.nil_append, List.mem_singleton] at hc
        rw [hc, point_not_digit] at hd
        cases hd
      · -- a digit before or after the point
        have hdigit : ∃ c ∈ W ++ '.' :: F, c.isDigit = true := by
          rcases W with _ | ⟨c, W⟩
          · rcases F with _ | ⟨c, F⟩
            · exact absurd ⟨rfl, rfl⟩ hempty
            · exact ⟨c, by simp, hF c List.mem_cons_self⟩
          · exact ⟨c, by simp, hW c List.mem_cons_self⟩
        refine .inl ⟨⟨hdigit, by rw [hcount, count_point_of_digits hF]⟩, W, F, ?_, ?_, hp.symm⟩
        · simp only [hall, true_and]
          refine if_pos fun hW0 => ?_
          cases F with
          | nil => exact absurd ⟨hW0, rfl⟩ hempty
          | cons => rfl
        · rw [digitsValue_eq, hm]
    · -- a second point follows the first
      have hpoint : '.' ∈ F := by
        obtain ⟨c, hc, hd⟩ : ∃ c ∈ F, c.isDigit = false := by simpa using hall
        rcases hN c (by simp [hc]) with h | rfl
        · rw [h] at hd
          cases hd
        · exact hc
      refine .inr ⟨fun h => ?_, by simp [hall]⟩
      have h2 := h.2
      have h1 := List.count_pos_iff.2 hpoint
      omega

end ClaimStore.Number

namespace ClaimStore.Config

open ClaimStore.Text ClaimStore.Number

/-! ## Splitting a quantity -/

/-- Trimmed, the text is the number part `N`, ASCII digits and points, then the rest `R`, which
starts with neither. -/
def SplitsAt (text : String) (N R : List Char) : Prop :=
  (trim text).toList = N ++ R ∧ (∀ c ∈ N, c.isDigit = true ∨ c = '.') ∧
    ∀ c ∈ R.head?, c.isDigit = false ∧ c ≠ '.'

/-- The number part of a text reads: it is a decimal whose double is finite. -/
def NumberReads (text : String) : Prop := ∃ N R, SplitsAt text N R ∧ IsDecimal N ∧ FitsDouble N

theorem numberChar_iff (c : Char) : (c.isDigit || c = '.') = true ↔ c.isDigit = true ∨ c = '.' := by
  simp

theorem splitsAt_takeWhile (text : String) :
    SplitsAt text ((trim text).toList.takeWhile fun c => c.isDigit || c = '.')
      ((trim text).toList.dropWhile fun c => c.isDigit || c = '.') := by
  unfold SplitsAt
  generalize (trim text).toList = cs
  refine ⟨List.takeWhile_append_dropWhile.symm, fun c hc => ?_, fun c hc => ?_⟩
  · exact (numberChar_iff c).1 (List.all_eq_true.1 List.all_takeWhile c hc)
  · have hhead := List.head?_dropWhile_not (fun c => c.isDigit || c = '.') cs
    rw [Option.mem_def] at hc
    rw [hc] at hhead
    simpa using hhead

theorem SplitsAt.eq {text : String} {N R : List Char} (h : SplitsAt text N R) :
    N = (trim text).toList.takeWhile (fun c => c.isDigit || c = '.') ∧
      R = (trim text).toList.dropWhile (fun c => c.isDigit || c = '.') := by
  obtain ⟨hsplit, hN, hR⟩ := h
  have hN' : ∀ c ∈ N, (c.isDigit || c = '.') = true := fun c hc => (numberChar_iff c).2 (hN c hc)
  rw [hsplit, List.takeWhile_append_of_pos hN', List.dropWhile_append_of_pos hN']
  -- the rest starts with no number character, so nothing more is taken
  cases R with
  | nil => simp
  | cons c R =>
    obtain ⟨hd, hp⟩ := hR c rfl
    have hc : (c.isDigit || c = '.') = false := by simp [hd, hp]
    simp [List.takeWhile_cons_of_neg, List.dropWhile_cons_of_neg, hc]

theorem readDecimal?_ofList {N whole frac : List Char} (h : splitDecimal N = some (whole, frac))
    (hm : digitsValue (whole ++ frac) = mantissa N) (hp : frac.length = places N) :
    readDecimal? (String.ofList N) = some (decimalValue N) := by
  rw [readDecimal?, String.toList_ofList, h, Option.map_some]
  dsimp only
  rw [hm, hp]
  rfl

/-- Splitting a quantity: the number part reads, and the value comes with the trimmed rest; or
it does not, and nothing comes. -/
theorem splitQuantity_cases (text : String) :
    (¬ NumberReads text ∧ splitQuantity text = none) ∨
    ∃ N R, SplitsAt text N R ∧ IsDecimal N ∧ FitsDouble N ∧
      splitQuantity text = some (decimalValue N, String.ofList (trimChars R)) := by
  have hs := splitsAt_takeWhile text
  unfold splitQuantity
  dsimp only
  generalize (trim text).toList.takeWhile (fun c => c.isDigit || c = '.') = N at hs ⊢
  generalize (trim text).toList.dropWhile (fun c => c.isDigit || c = '.') = R at hs ⊢
  -- a number part that reads is this one, as the split is unique
  have hreads : NumberReads text ↔ IsDecimal N ∧ FitsDouble N := by
    constructor
    · rintro ⟨N', R', hs', hd, hf⟩
      rw [hs'.eq.1, ← hs.eq.1] at hd hf
      exact ⟨hd, hf⟩
    · rintro ⟨hd, hf⟩
      exact ⟨N, R, hs, hd, hf⟩
  have htrim : trim (String.ofList R) = String.ofList (trimChars R) := by
    rw [trim, String.toList_ofList]
  rcases splitDecimal_cases hs.2.1 with ⟨hd, whole, frac, hsplit, hm, hp⟩ | ⟨hd, hnone⟩
  · have hfin : finiteDecimal (String.ofList N) = decide (FitsDouble N) := by
      rw [finiteDecimal, String.toList_ofList, hsplit]
      dsimp only
      rw [hm, hp]
      rfl
    rw [readDecimal?_ofList hsplit hm hp, hfin, htrim]
    by_cases hf : FitsDouble N
    · exact .inr ⟨N, R, hs, hd, hf, by simp [hf]⟩
    · exact .inl ⟨fun h => hf (hreads.1 h).2, by simp [hf]⟩
  · rw [readDecimal?, String.toList_ofList, hnone]
    exact .inl ⟨fun h => hd (hreads.1 h).1, rfl⟩

/-! ## Units -/

/-- Two spellings that agree but for the case of ASCII letters. -/
def SameIgnoringCase (u w : List Char) : Prop := u.map Char.toLower = w.map Char.toLower

/-- The duration units: their spellings, and the nanoseconds in one of each. -/
def durationUnits : List (List String × Nat) :=
  [(["ms", "milli", "millis", "millisecond", "milliseconds"], 10 ^ 6),
   (["", "s", "sec", "secs", "second", "seconds"], 10 ^ 9),
   (["m", "min", "mins", "minute", "minutes"], 60 * 10 ^ 9),
   (["h", "hr", "hrs", "hour", "hours"], 3600 * 10 ^ 9),
   (["d", "day", "days"], 86400 * 10 ^ 9)]

/-- The data size units: their spellings, and the bytes in one of each. -/
def sizeUnits : List (List String × Nat) :=
  [(["", "B", "BYTES"], 1), (["K", "KB"], 2 ^ 10), (["M", "MB"], 2 ^ 20), (["G", "GB"], 2 ^ 30),
   (["T", "TB"], 2 ^ 40)]

/-- `u` spells, in any ASCII case, a unit of `table` that is worth `a`. -/
def Spells (table : List (List String × Nat)) (u : List Char) (a : Nat) : Prop :=
  ∃ ws w, (ws, a) ∈ table ∧ w ∈ ws ∧ SameIgnoringCase u w.toList

theorem durationUnit?_eq_some_iff (s : String) (a : Nat) :
    durationUnit? s = some a ↔ ∃ ws, (ws, a) ∈ durationUnits ∧ s ∈ ws := by
  have hknown : ∀ p ∈ durationUnits, ∀ w ∈ p.1, durationUnit? w = some p.2 := by decide
  constructor
  · -- each spelling the reader knows is in the table, with its amount
    intro h
    unfold durationUnit? at h
    split at h <;> cases h <;> simp [durationUnits]
  · rintro ⟨ws, hws, hs⟩
    exact hknown (ws, a) hws s hs

theorem sizeUnit?_eq_some_iff (s : String) (a : Nat) :
    sizeUnit? s = some a ↔ ∃ ws, (ws, a) ∈ sizeUnits ∧ s ∈ ws := by
  have hknown : ∀ p ∈ sizeUnits, ∀ w ∈ p.1, sizeUnit? w = some p.2 := by decide
  constructor
  · intro h
    unfold sizeUnit? at h
    split at h <;> cases h <;> simp [sizeUnits]
  · rintro ⟨ws, hws, hs⟩
    exact hknown (ws, a) hws s hs

/-- A lower-case ASCII letter goes to upper case and back; any other character stays. -/
theorem toLower_toUpper (c : Char) : c.toUpper.toLower = c.toLower := by
  by_cases h : 'a'.val ≤ c.val ∧ c.val ≤ 'z'.val
  · have hc : ¬ ('A'.val ≤ c.val ∧ c.val ≤ 'Z'.val) := by
      simp only [UInt32.le_iff_toNat_le] at h ⊢
      simp at h ⊢
      omega
    -- unfolded without equation lemmas, which the library already has
    delta Char.toUpper Char.toLower
    rw [dif_pos h, dif_neg hc]
    simp only [UInt32.le_iff_toNat_le] at h
    simp at h
    split
    · apply Char.ext
      rw [← UInt32.toNat_inj]
      simp
      omega
    · rename_i hne
      exact absurd (by simp only [UInt32.le_iff_toNat_le]; simp; omega) hne
  · delta Char.toUpper
    rw [dif_neg h]

/-- An upper-case ASCII letter goes to lower case and back; any other character stays. -/
theorem toUpper_toLower (c : Char) : c.toLower.toUpper = c.toUpper := by
  by_cases h : 'A'.val ≤ c.val ∧ c.val ≤ 'Z'.val
  · have hc : ¬ ('a'.val ≤ c.val ∧ c.val ≤ 'z'.val) := by
      simp only [UInt32.le_iff_toNat_le] at h ⊢
      simp at h ⊢
      omega
    -- unfolded without equation lemmas, which the library already has
    delta Char.toUpper Char.toLower
    rw [dif_pos h, dif_neg hc]
    simp only [UInt32.le_iff_toNat_le] at h
    simp at h
    split
    · apply Char.ext
      rw [← UInt32.toNat_inj]
      simp
      omega
    · rename_i hne
      exact absurd (by simp only [UInt32.le_iff_toNat_le]; simp; omega) hne
  · delta Char.toLower
    rw [dif_neg h]

theorem map_toUpper_eq_iff (u v : List Char) :
    u.map Char.toUpper = v.map Char.toUpper ↔ SameIgnoringCase u v := by
  constructor
  · intro h
    have h' := congrArg (List.map Char.toLower) h
    simpa only [SameIgnoringCase, List.map_map, Function.comp_def, toLower_toUpper] using h'
  · intro h
    have h' := congrArg (List.map Char.toUpper) h
    simpa only [SameIgnoringCase, List.map_map, Function.comp_def, toUpper_toLower] using h'

theorem spells_iff {table : List (List String × Nat)} {f : Char → Char}
    (hfix : ∀ p ∈ table, ∀ w ∈ p.1, w.toList.map f = w.toList)
    (hsame : ∀ u v : List Char, u.map f = v.map f ↔ SameIgnoringCase u v) (u : List Char)
    (a : Nat) : (∃ ws, (ws, a) ∈ table ∧ String.ofList (u.map f) ∈ ws) ↔ Spells table u a := by
  constructor
  · rintro ⟨ws, hws, hu⟩
    -- the folded spelling is a word of the table, so folding it again changes nothing
    have hfold := hfix _ hws _ hu
    rw [String.toList_ofList] at hfold
    refine ⟨ws, _, hws, hu, (hsame _ _).1 ?_⟩
    rw [String.toList_ofList, hfold]
  · rintro ⟨ws, w, hws, hw, hsw⟩
    have hu : u.map f = w.toList := ((hsame _ _).2 hsw).trans (hfix _ hws w hw)
    rw [hu, String.ofList_toList]
    exact ⟨ws, hws, hw⟩

theorem durationUnit?_toLower (u : List Char) (a : Nat) :
    durationUnit? (String.ofList (u.map Char.toLower)) = some a ↔ Spells durationUnits u a := by
  rw [durationUnit?_eq_some_iff]
  exact spells_iff (by decide) (fun _ _ => Iff.rfl) u a

theorem sizeUnit?_toUpper (u : List Char) (a : Nat) :
    sizeUnit? (String.ofList (u.map Char.toUpper)) = some a ↔ Spells sizeUnits u a := by
  rw [sizeUnit?_eq_some_iff]
  exact spells_iff (by decide) map_toUpper_eq_iff u a

/-! ## The two readers -/

theorem SplitsAt.unique {text : String} {N R N' R' : List Char} (h : SplitsAt text N R)
    (h' : SplitsAt text N' R') : N' = N ∧ R' = R := by
  rw [h.eq.1, h.eq.2, h'.eq.1, h'.eq.2]
  exact ⟨rfl, rfl⟩

section Reader

variable {badNumber : Issue} {badUnit : String → Issue} {fold : Char → Char}
  {unitOf? : String → Option Nat} {finish : Float → Nat → Nat} {table : List (List String × Nat)}

/-- What a quantity reader does with a text whose units it looks up as the table spells them:
the number part does not read, and the number's refusal comes; or it reads, and either the
trimmed rest spells a unit, and the count comes, or it does not, and the unit's refusal comes. -/
theorem readQuantity_cases
    (hunit : ∀ u a, unitOf? (String.ofList (u.map fold)) = some a ↔ Spells table u a)
    (text : String) :
    (¬ NumberReads text ∧
      readQuantity badNumber badUnit fold unitOf? finish text = .error badNumber) ∨
    ∃ N R, SplitsAt text N R ∧ IsDecimal N ∧ FitsDouble N ∧
      ((∃ a, Spells table (trimChars R) a ∧
          readQuantity badNumber badUnit fold unitOf? finish text = .ok (finish (decimalValue N) a)) ∨
        ((¬ ∃ a, Spells table (trimChars R) a) ∧
          readQuantity badNumber badUnit fold unitOf? finish text =
            .error (badUnit (String.ofList ((trimChars R).map fold))))) := by
  unfold readQuantity
  rcases splitQuantity_cases text with ⟨hnot, hnone⟩ | ⟨N, R, hs, hd, hf, hsome⟩
  · rw [hnone]
    exact .inl ⟨hnot, rfl⟩
  · rw [hsome]
    dsimp only
    have hfold : (String.ofList (trimChars R)).map fold = String.ofList ((trimChars R).map fold) := by
      rw [String.map_eq_internal, String.toList_ofList]
    rw [hfold]
    refine .inr ⟨N, R, hs, hd, hf, ?_⟩
    cases hu : unitOf? (String.ofList ((trimChars R).map fold)) with
    | some a => exact .inl ⟨a, (hunit _ a).1 hu, rfl⟩
    | none =>
      refine .inr ⟨fun ⟨a, ha⟩ => ?_, rfl⟩
      rw [(hunit _ a).2 ha] at hu
      cases hu

/-- A quantity reader answers a count exactly for a text of its grammar: the value of the
number part and the amount of the unit the rest spells make it. -/
theorem readQuantity_ok_iff
    (hunit : ∀ u a, unitOf? (String.ofList (u.map fold)) = some a ↔ Spells table u a)
    (text : String) (n : Nat) :
    readQuantity badNumber badUnit fold unitOf? finish text = .ok n ↔
      ∃ N R a, SplitsAt text N R ∧ IsDecimal N ∧ FitsDouble N ∧ Spells table (trimChars R) a ∧
        n = finish (decimalValue N) a := by
  have hone : ∀ u a a', Spells table u a → Spells table u a' → a' = a := fun u a a' h h' =>
    Option.some.inj (((hunit u a').2 h').symm.trans ((hunit u a).2 h))
  rcases @readQuantity_cases badNumber badUnit fold unitOf? finish table hunit text with ⟨hnot, h⟩ | ⟨N, R, hs, hd, hf, ⟨a, ha, h⟩ | ⟨hno, h⟩⟩
  · rw [h]
    simp only [reduceCtorEq, false_iff, not_exists, not_and]
    exact fun N R _ hs hd hf _ => absurd ⟨N, R, hs, hd, hf⟩ hnot
  · rw [h, Except.ok.injEq]
    constructor
    · rintro rfl
      exact ⟨N, R, a, hs, hd, hf, ha, rfl⟩
    · rintro ⟨N', R', a', hs', -, -, ha', rfl⟩
      obtain ⟨rfl, rfl⟩ := hs.unique hs'
      rw [hone _ a a' ha ha']
  · rw [h]
    simp only [reduceCtorEq, false_iff, not_exists, not_and]
    intro N' R' a' hs' _ _ ha'
    obtain ⟨-, rfl⟩ := hs.unique hs'
    exact absurd ⟨a', ha'⟩ hno

/-- A quantity reader refuses a text whose number part does not read with the number's refusal,
and one whose rest spells no unit with the unit's, naming the unit as it folded it. -/
theorem readQuantity_error_iff
    (hunit : ∀ u a, unitOf? (String.ofList (u.map fold)) = some a ↔ Spells table u a)
    (text : String) (e : Issue) :
    readQuantity badNumber badUnit fold unitOf? finish text = .error e ↔
      (¬ NumberReads text ∧ e = badNumber) ∨
      ∃ N R, SplitsAt text N R ∧ IsDecimal N ∧ FitsDouble N ∧
        (¬ ∃ a, Spells table (trimChars R) a) ∧ e = badUnit (String.ofList ((trimChars R).map fold)) := by
  rcases @readQuantity_cases badNumber badUnit fold unitOf? finish table hunit text with ⟨hnot, h⟩ | ⟨N, R, hs, hd, hf, ⟨a, ha, h⟩ | ⟨hno, h⟩⟩
  · rw [h, Except.error.injEq]
    constructor
    · rintro rfl
      exact .inl ⟨hnot, rfl⟩
    · rintro (⟨-, rfl⟩ | ⟨N, R, hs, hd, hf, -⟩)
      · rfl
      · exact absurd ⟨N, R, hs, hd, hf⟩ hnot
  · rw [h]
    simp only [reduceCtorEq, false_iff, not_or, not_and, not_exists]
    refine ⟨fun hnot => absurd ⟨N, R, hs, hd, hf⟩ hnot, fun N' R' hs' _ _ hno' => ?_⟩
    obtain ⟨-, rfl⟩ := hs.unique hs'
    exact (hno' a ha).elim
  · rw [h, Except.error.injEq]
    constructor
    · rintro rfl
      exact .inr ⟨N, R, hs, hd, hf, hno, rfl⟩
    · rintro (⟨hnot, -⟩ | ⟨N', R', hs', -, -, -, rfl⟩)
      · exact absurd ⟨N, R, hs, hd, hf⟩ hnot
      · obtain ⟨-, rfl⟩ := hs.unique hs'
        rfl

end Reader

/-- A duration or a data size is read exactly when, trimmed, its text is a decimal number part
whose double is finite followed by a rest that, trimmed, spells one of the reader's units in
any ASCII case; the answer is the value times the unit's amount, rounded for durations and
truncated for sizes, as a 64-bit count. Every other text is refused: with the number's refusal
when the number part does not read, and with the unit's, naming the unit in the reader's case,
when it reads but the rest spells no unit. -/
theorem quantities_accept_exactly_their_grammar (text : String) :
    (∀ n, parseDuration text = .ok n ↔ ∃ N R nanos, SplitsAt text N R ∧ IsDecimal N ∧
        FitsDouble N ∧ Spells durationUnits (trimChars R) nanos ∧
        n = (decimalValue N * nanos.toFloat).round.toUInt64.toNat) ∧
    (∀ e, parseDuration text = .error e ↔ (¬ NumberReads text ∧ e = .badDuration text) ∨
        ∃ N R, SplitsAt text N R ∧ IsDecimal N ∧ FitsDouble N ∧
          (¬ ∃ nanos, Spells durationUnits (trimChars R) nanos) ∧
          e = .durationUnit text (String.ofList ((trimChars R).map Char.toLower))) ∧
    (∀ n, parseDataSize text = .ok n ↔ ∃ N R bytes, SplitsAt text N R ∧ IsDecimal N ∧
        FitsDouble N ∧ Spells sizeUnits (trimChars R) bytes ∧
        n = (decimalValue N * bytes.toFloat).toUInt64.toNat) ∧
    (∀ e, parseDataSize text = .error e ↔ (¬ NumberReads text ∧ e = .badDataSize text) ∨
        ∃ N R, SplitsAt text N R ∧ IsDecimal N ∧ FitsDouble N ∧
          (¬ ∃ bytes, Spells sizeUnits (trimChars R) bytes) ∧
          e = .dataSizeUnit text (String.ofList ((trimChars R).map Char.toUpper))) :=
  ⟨readQuantity_ok_iff durationUnit?_toLower text, readQuantity_error_iff durationUnit?_toLower text,
    readQuantity_ok_iff sizeUnit?_toUpper text, readQuantity_error_iff sizeUnit?_toUpper text⟩

theorem trimChars_eq_self {cs : List Char} (hhead : ∀ c ∈ cs.head?, isBlank c = false)
    (hlast : ∀ c ∈ cs.getLast?, isBlank c = false) : trimChars cs = cs := by
  have hdrop : ∀ l : List Char, (∀ c ∈ l.head?, isBlank c = false) → l.dropWhile isBlank = l := by
    intro l hl
    cases l with
    | nil => rfl
    | cons c l => exact List.dropWhile_cons_of_neg (by simpa using hl c rfl)
  unfold trimChars
  rw [hdrop cs hhead, hdrop cs.reverse (by rwa [List.head?_reverse]), List.reverse_reverse]

/-- One followed by 309 zeros: a decimal beyond the largest double. -/
def overflowingQuantity : String := String.ofList ('1' :: List.replicate 309 '0')

/-- A decimal too large for a double is refused by both readers, though it is digits alone
with no unit, which means seconds or bytes: the grammar alone does not decide. -/
theorem overflowing_quantity_refused :
    SplitsAt overflowingQuantity overflowingQuantity.toList [] ∧
    IsDecimal overflowingQuantity.toList ∧ ¬ FitsDouble overflowingQuantity.toList ∧
    Spells durationUnits [] (10 ^ 9) ∧ Spells sizeUnits [] 1 ∧
    parseDuration overflowingQuantity = .error (.badDuration overflowingQuantity) ∧
    parseDataSize overflowingQuantity = .error (.badDataSize overflowingQuantity) := by
  -- the digits are worked on as a list: evaluating the text itself is slow
  have hlist : overflowingQuantity.toList = '1' :: List.replicate 309 '0' := String.toList_ofList
  have hdigits : ∀ c ∈ overflowingQuantity.toList, c.isDigit = true := by
    rw [hlist]
    intro c hc
    simp only [List.mem_cons, List.mem_replicate] at hc
    rcases hc with rfl | ⟨-, rfl⟩ <;> rfl
  have hsplit : SplitsAt overflowingQuantity overflowingQuantity.toList [] := by
    refine ⟨?_, fun c hc => .inl (hdigits c hc), by simp⟩
    rw [trim, String.toList_ofList, List.append_nil, hlist]
    refine trimChars_eq_self (fun c hc => ?_) (fun c hc => ?_)
    · rw [List.head?_cons, Option.mem_def, Option.some.injEq] at hc
      rw [← hc]
      decide
    · rw [List.replicate_succ', ← List.cons_append, List.getLast?_concat, Option.mem_def,
        Option.some.injEq] at hc
      rw [← hc]
      decide
  have hdec : IsDecimal overflowingQuantity.toList :=
    ⟨⟨'1', by rw [hlist]; exact List.mem_cons_self, rfl⟩,
      by rw [count_point_of_digits hdigits]; omega⟩
  -- its value is `10 ^ 309`, past `2 ^ 1024`
  have hbig : ¬ FitsDouble overflowingQuantity.toList := by
    obtain ⟨hm, hp⟩ := mantissa_places_of_digits hdigits
    have hvalue : Claim.digitsValue overflowingQuantity.toList = 10 ^ 309 := by
      rw [hlist, Claim.digitsValue, List.reverse_cons, List.reverse_replicate, List.map_append,
        List.map_replicate, Nat.sub_self, Nat.ofDigits_append, Nat.ofDigits_replicate_zero,
        List.length_replicate, List.map_singleton, Nat.ofDigits_singleton]
      have hone : '1'.toNat - '0'.toNat = 1 := rfl
      rw [hone, Nat.zero_add, Nat.mul_one]
    rw [FitsDouble, hm, hp, hvalue, doubleOverflow]
    decide +kernel
  have hnot : ¬ NumberReads overflowingQuantity := by
    rintro ⟨N, R, hs, -, hf⟩
    obtain ⟨hN, -⟩ := hsplit.unique hs
    rw [hN] at hf
    exact hbig hf
  have hdur : parseDuration overflowingQuantity = .error (.badDuration overflowingQuantity) :=
    (@readQuantity_error_iff (.badDuration overflowingQuantity) (.durationUnit overflowingQuantity)
      Char.toLower durationUnit? (fun value nanos => (value * nanos.toFloat).round.toUInt64.toNat)
      durationUnits durationUnit?_toLower overflowingQuantity _).2 (.inl ⟨hnot, rfl⟩)
  have hsize : parseDataSize overflowingQuantity = .error (.badDataSize overflowingQuantity) :=
    (@readQuantity_error_iff (.badDataSize overflowingQuantity) (.dataSizeUnit overflowingQuantity)
      Char.toUpper sizeUnit? (fun value bytes => (value * bytes.toFloat).toUInt64.toNat)
      sizeUnits sizeUnit?_toUpper overflowingQuantity _).2 (.inl ⟨hnot, rfl⟩)
  have hsec : Spells durationUnits [] (10 ^ 9) :=
    ⟨["", "s", "sec", "secs", "second", "seconds"], "", by simp [durationUnits], by simp, rfl⟩
  have hbyte : Spells sizeUnits [] 1 := ⟨["", "B", "BYTES"], "", by simp [sizeUnits], by simp, rfl⟩
  exact ⟨hsplit, hdec, hbig, hsec, hbyte, hdur, hsize⟩

end ClaimStore.Config
