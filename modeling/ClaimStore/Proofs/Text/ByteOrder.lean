import Mathlib.Tactic.SplitIfs
/-!
# Byte order and character order

Texts are stored as UTF-8, and their bytes compare as their characters do. A character's
encoding is a lead byte, which grows with the encoding's length, followed by base-64 digits of
the code point, most significant first; so of two characters the smaller one's bytes are the
smaller ones at the first place they differ, whatever follows them
(`utf8EncodeChar_append_lt`). Ordering texts by their characters is ordering them by their
bytes (`utf8_lt_iff`).
-/

set_option autoImplicit false

namespace ClaimStore.Text

theorem utf8EncodeChar_append_lt {c d : Char} (h : c < d) (u v : List UInt8) :
    String.utf8EncodeChar c ++ u < String.utf8EncodeChar d ++ v := by
  have hcd : c.val.toNat < d.val.toNat := h
  have hd : d.val.toNat < 0x110000 := by
    have hvalid := d.valid
    simp only [UInt32.isValidChar, Nat.isValidChar] at hvalid
    omega
  -- the bytes after the lead one are base-64 digits of the code point, most significant first
  have hdigits : ∀ n : Nat, n / 4096 = n / 64 / 64 ∧ n / 262144 = n / 64 / 64 / 64 := by
    intro n
    constructor <;> omega
  simp only [String.utf8EncodeChar, (hdigits _).1, (hdigits _).2]
  -- one case per pair of encoding lengths; the bytes are compared as numbers
  split_ifs <;>
    simp only [List.cons_append, List.nil_append, List.cons_lt_cons_iff, UInt8.lt_iff_toNat_lt,
      UInt8.toNat_ofNat', ← UInt8.toNat_inj] <;>
    omega

theorem utf8EncodeChar_ne_nil (c : Char) : String.utf8EncodeChar c ≠ [] := by
  simp only [String.utf8EncodeChar]
  split_ifs <;> simp

theorem flatMap_utf8EncodeChar_lt {l m : List Char} (h : l < m) :
    l.flatMap String.utf8EncodeChar < m.flatMap String.utf8EncodeChar := by
  induction h with
  | @nil a l =>
    obtain ⟨b, bs, hb⟩ := List.exists_cons_of_ne_nil (utf8EncodeChar_ne_nil a)
    rw [List.flatMap_nil, List.flatMap_cons, hb, List.cons_append]
    exact List.Lex.nil
  | rel hlt => exact utf8EncodeChar_append_lt hlt _ _
  | cons _ ih => exact List.append_left_lt ih

theorem toByteArray_toList (s : String) :
    s.toByteArray.data.toList = s.toList.flatMap String.utf8EncodeChar := by
  rw [← String.utf8Encode_toList, List.utf8Encode, List.toList_data_toByteArray]

theorem utf8_lt_iff {s t : String} :
    s.toByteArray.data.toList < t.toByteArray.data.toList ↔ s < t := by
  rw [toByteArray_toList, toByteArray_toList]
  constructor
  · intro hbytes
    show s.toList < t.toList
    by_cases hlt : s.toList < t.toList
    · exact hlt
    exfalso
    rcases List.le_iff_lt_or_eq.1 (List.not_lt.1 hlt) with h | h
    · exact List.lt_asymm hbytes (flatMap_utf8EncodeChar_lt h)
    · rw [h] at hbytes
      exact List.lt_irrefl _ hbytes
  · exact flatMap_utf8EncodeChar_lt

end ClaimStore.Text
