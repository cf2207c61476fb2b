import ClaimStore.Prelude
/-!
# Blank characters and trimming

The blank characters are those with the Unicode property White_Space: tab, line feed, vertical
tab, form feed, carriage return, space, next line, no-break space, ogham space mark, the spaces
from en quad to hair space, line and paragraph separator, narrow no-break space, medium
mathematical space and ideographic space. Trimming removes blanks at both ends of a text and
nothing else.
-/

namespace ClaimStore.Text

/-- Whether a character has the Unicode property White_Space. -/
def isBlank (c : Char) : Bool :=
  let n := c.toNat
  (9 ≤ n && n ≤ 13) || n == 0x20 || n == 0x85 || n == 0xA0 || n == 0x1680 ||
    (0x2000 ≤ n && n ≤ 0x200A) || n == 0x2028 || n == 0x2029 || n == 0x202F ||
    n == 0x205F || n == 0x3000

theorem isBlank_of_isWhitespace (c : Char) (h : c.isWhitespace = true) : isBlank c = true := by
  simp only [Char.isWhitespace, Bool.or_eq_true, decide_eq_true_eq] at h
  rcases h with ((h | h) | h) | h <;> subst h <;> decide

/-- The characters of a text without its leading and trailing blanks. -/
def trimChars (cs : List Char) : List Char :=
  ((cs.dropWhile isBlank).reverse.dropWhile isBlank).reverse

/-- A text without its leading and trailing blanks. -/
def trim (s : String) : String :=
  String.ofList (trimChars s.toList)

end ClaimStore.Text
