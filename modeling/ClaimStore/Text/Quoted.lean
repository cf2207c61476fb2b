import ClaimStore.Text.Printable
import ClaimStore.Text.Extending
/-!
# Quoted text

Diagnostics show a text in double quotes. Inside, a NUL, tab, carriage return and line feed are
written as a backslash and `0`, `t`, `r`, `n`; a backslash and a double quote get a backslash in
front; a grapheme-extending or unprintable character is written as a backslash, `u` and its code
point in lowercase hexadecimal between braces; every other character stands for itself.
-/

namespace ClaimStore.Text

/-- The code point of a character in lowercase hexadecimal, without leading zeros. -/
def hexCode (c : Char) : String :=
  String.ofList (Nat.toDigits 16 c.toNat)

/-- How one character is written inside quotes. -/
def quoteChar (c : Char) : String :=
  if c = '\x00' then "\\0"
  else if c = '\t' then "\\t"
  else if c = '\r' then "\\r"
  else if c = '\n' then "\\n"
  else if c = '\\' then "\\\\"
  else if c = '"' then "\\\""
  else if isExtending c || !isPrintable c then "\\u\x7b" ++ hexCode c ++ "\x7d"
  else String.singleton c

/-- A text between double quotes, with the characters that need it escaped. -/
def quote (s : String) : String :=
  "\"" ++ String.join (s.toList.map quoteChar) ++ "\""

end ClaimStore.Text
