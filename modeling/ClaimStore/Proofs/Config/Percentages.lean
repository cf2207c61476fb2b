import ClaimStore.Config.Quantity
import ClaimStore.Proofs.Claim.Ids
/-!
# Percentages

A percentage setting is one or two ASCII digits and a percent sign, with blanks around it.
`IsPercentage` says this of the trimmed characters, with the positional value of the digits,
and the reader accepts exactly such texts, giving `n / 100` (`parsePercentage_cases`). Every
refusal is the format's, with its hint: digits that pass the format are read as a 32-bit word,
and one or two of them always are one (`readUnsigned?_of_digits`).

Main statement: `percentage_accepts_exactly_its_grammar`.
-/

set_option autoImplicit false

namespace ClaimStore.Number

theorem digitsValue_eq (ds : List Char) : digitsValue ds = Claim.digitsValue ds := by
  rw [digitsValue, ← Claim.ofDigitChars_eq_digitsValue, Nat.ofDigitChars_eq_foldl]

theorem digit_lt_ten {c : Char} (h : c.isDigit = true) : c.toNat - '0'.toNat < 10 := by
  simp only [Char.isDigit, Bool.and_eq_true, decide_eq_true_eq] at h
  have h9 : c.toNat ≤ '9'.toNat := h.2
  change c.toNat ≤ 57 at h9
  change c.toNat - 48 < 10
  omega

theorem digitsValue_lt {ds : List Char} (h : ∀ c ∈ ds, c.isDigit = true) :
    Claim.digitsValue ds < 10 ^ ds.length := by
  have hl := Nat.ofDigits_lt_base_pow_length (b := 10) (l := ds.reverse.map fun c => c.toNat - '0'.toNat)
    (by norm_num) (by simpa using fun c hc => digit_lt_ten (h c hc))
  simpa [Claim.digitsValue] using hl

theorem readUnsigned?_of_digits (bits : Nat) {ds : List Char} (hne : ds ≠ [])
    (hd : ∀ c ∈ ds, c.isDigit = true) (hfit : digitsValue ds < 2 ^ bits) :
    readUnsigned? bits (String.ofList ds) = some (digitsValue ds) := by
  obtain ⟨c, rest, rfl⟩ := List.exists_cons_of_ne_nil hne
  have hc : c ≠ '+' := by
    rintro rfl
    simpa using hd '+' List.mem_cons_self
  have hall : (c :: rest).all Char.isDigit = true := List.all_eq_true.2 hd
  simp only [readUnsigned?, String.toList_ofList]
  split
  · rename_i h
    exact absurd (List.cons.inj h).1 hc
  · simp [hall, hfit]

end ClaimStore.Number

namespace ClaimStore.Config

open ClaimStore.Text

/-- The characters `cs` write a percentage of `n` points: one or two ASCII digits spelling `n`,
then a percent sign. -/
def IsPercentage (cs : List Char) (n : Nat) : Prop :=
  ∃ ds, cs = ds ++ ['%'] ∧ 1 ≤ ds.length ∧ ds.length ≤ 2 ∧ (∀ c ∈ ds, c.isDigit = true) ∧
    Claim.digitsValue ds = n

theorem IsPercentage.unique {cs : List Char} {n m : Nat} (hn : IsPercentage cs n)
    (hm : IsPercentage cs m) : n = m := by
  obtain ⟨ds, rfl, -, -, -, rfl⟩ := hn
  obtain ⟨es, hes, -, -, -, rfl⟩ := hm
  rw [List.append_cancel_right hes]

theorem IsPercentage.lt_hundred {cs : List Char} {n : Nat} (h : IsPercentage cs n) : n < 100 := by
  obtain ⟨ds, -, -, hlen, hd, rfl⟩ := h
  calc Claim.digitsValue ds < 10 ^ ds.length := Number.digitsValue_lt hd
    _ ≤ 10 ^ 2 := Nat.pow_le_pow_right (by norm_num) hlen
    _ = 100 := by norm_num

/-- The reader either finds a percentage and gives its fraction, or finds none and refuses the
text with the format's hint. -/
theorem parsePercentage_cases (text : String) :
    (∃ n, IsPercentage (trim text).toList n ∧ parsePercentage text = .ok (n.toFloat / 100.0)) ∨
    ((¬ ∃ n, IsPercentage (trim text).toList n) ∧
      parsePercentage text = .error (.badPercentage text)) := by
  unfold parsePercentage
  generalize (trim text).toList = cs
  dsimp only
  split
  · rename_i ds hrev
    have hcs : cs = ds.reverse ++ ['%'] := List.reverse_eq_cons_iff.1 hrev
    split
    · rename_i hfmt
      obtain ⟨hlo, hhi, hall⟩ := hfmt
      have hd : ∀ c ∈ ds.reverse, c.isDigit = true := List.all_eq_true.1 hall
      have hpct : IsPercentage cs (Claim.digitsValue ds.reverse) := ⟨ds.reverse, hcs, hlo, hhi, hd, rfl⟩
      -- below a hundred, the digits always make a 32-bit word: the second refusal never comes
      have hfit : Number.digitsValue ds.reverse < 2 ^ 32 := by
        rw [Number.digitsValue_eq]
        exact lt_trans hpct.lt_hundred (by norm_num)
      rw [Number.readUnsigned?_of_digits 32 (List.ne_nil_of_length_pos hlo) hd hfit,
        Number.digitsValue_eq]
      exact .inl ⟨_, hpct, rfl⟩
    · rename_i hfmt
      refine .inr ⟨?_, rfl⟩
      rintro ⟨n, es, hes, hlo, hhi, hd, -⟩
      have hsame : es = ds.reverse := List.append_cancel_right (hes.symm.trans hcs)
      subst hsame
      exact hfmt ⟨hlo, hhi, List.all_eq_true.2 hd⟩
  · rename_i hnot
    refine .inr ⟨?_, rfl⟩
    rintro ⟨n, es, rfl, -⟩
    exact hnot es.reverse (by simp)

/-- A percentage setting is read exactly when its trimmed text is one or two ASCII digits and a
percent sign, as the fraction `n / 100` of the `n` they spell, so one of `0, 0.01, …, 0.99`;
every other text is refused with the format's hint, and the refusal of digits that are no
32-bit word never comes. -/
theorem percentage_accepts_exactly_its_grammar (text : String) :
    (∀ x, parsePercentage text = .ok x ↔
      ∃ n, IsPercentage (trim text).toList n ∧ x = n.toFloat / 100.0) ∧
    (∀ e, parsePercentage text = .error e ↔
      (¬ ∃ n, IsPercentage (trim text).toList n) ∧ e = .badPercentage text) ∧
    (Issue.badPercentage text).message =
      "invalid percentage " ++ quote text ++ ": expected format <XX>%" ∧
    (∀ x, parsePercentage text = .ok x → ∃ n < 100, x = n.toFloat / 100.0) := by
  rcases parsePercentage_cases text with ⟨n, hn, hok⟩ | ⟨hnone, herr⟩
  · refine ⟨fun x => ?_, fun e => ?_, rfl, fun x hx => ?_⟩
    · rw [hok, Except.ok.injEq]
      constructor
      · rintro rfl
        exact ⟨n, hn, rfl⟩
      · rintro ⟨m, hm, rfl⟩
        rw [hn.unique hm]
    · rw [hok]
      simp only [reduceCtorEq, false_iff, not_and]
      exact fun hnot => absurd ⟨n, hn⟩ hnot
    · rw [hok, Except.ok.injEq] at hx
      exact ⟨n, hn.lt_hundred, hx.symm⟩
  · refine ⟨fun x => ?_, fun e => ?_, rfl, fun x hx => ?_⟩
    · rw [herr]
      simp only [reduceCtorEq, false_iff, not_exists, not_and]
      exact fun m hm => absurd ⟨m, hm⟩ hnone
    · rw [herr, Except.error.injEq]
      exact ⟨fun h => ⟨hnone, h.symm⟩, fun h => h.2.symm⟩
    · rw [herr] at hx
      cases hx

end ClaimStore.Config
