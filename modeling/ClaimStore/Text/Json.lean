import ClaimStore.Number.Shortest
/-!
# JSON values

Reports are JSON values. Objects keep their fields in the order they were built. Two layouts are
written: the compact one (no blanks at all) and the pretty one (each array item and object
field on its own line, indented by two spaces per level, a blank after each colon; an empty
array is `[]`, an empty object `{}`). Strings escape the quote, the backslash and the control
characters (`\b \f \n \r \t` by name, the others as `\u00xx`); every other character is written
as itself. A double is written with its shortest digits and at least one digit after the point.
-/

namespace ClaimStore.Text

/-- A JSON value. -/
inductive Json where
  | null
  | bool (b : Bool)
  | int (n : Int)
  | float (x : Float)
  | str (s : String)
  | arr (items : List Json)
  | obj (fields : List (String × Json))
  deriving Inhabited

namespace Json

/-- A natural number. -/
def nat (n : Nat) : Json := .int n

/-- A natural number, or null. -/
def natOrNull : Option Nat → Json
  | some n => .int n
  | none => .null

/-- The value of a field of an object; `none` when it is absent, or when the value is no object.
A later field of the same name wins. -/
def field? (j : Json) (k : String) : Option Json :=
  match j with
  | .obj fields => (fields.reverse.find? (·.1 == k)).map (·.2)
  | _ => none

/-- How a character is written inside a JSON string. -/
def escapeChar (c : Char) : String :=
  if c = '"' then "\\\""
  else if c = '\\' then "\\\\"
  else if c = '\n' then "\\n"
  else if c = '\r' then "\\r"
  else if c = '\t' then "\\t"
  else if c = '\x08' then "\\b"
  else if c = '\x0c' then "\\f"
  else if c.toNat < 0x20 then
    "\\u00" ++ String.singleton (Nat.digitChar (c.toNat / 16)) ++
      String.singleton (Nat.digitChar (c.toNat % 16))
  else String.singleton c

/-- A string between quotes, escaped. -/
def quoteString (s : String) : String :=
  "\"" ++ String.join (s.toList.map escapeChar) ++ "\""

/-- The digits of a decimal `d * 10 ^ k`, with a point and at least one digit after it. -/
def decimalText (d k : Int) : String :=
  let sign := if d < 0 then "-" else ""
  let digits := toString d.natAbs
  if k ≥ 0 then sign ++ digits ++ String.ofList (List.replicate k.toNat '0') ++ ".0"
  else
    let places := (-k).toNat
    let padded := String.ofList (List.replicate (places + 1 - digits.length) '0') ++ digits
    let cut := padded.length - places
    sign ++ String.ofList (padded.toList.take cut) ++ "." ++ String.ofList (padded.toList.drop cut)

/-- A double: shortest digits, one fractional digit at least. -/
def floatText (x : Float) : String :=
  let (d, k) := Number.Float.shortest x
  decimalText d k

mutual

/-- The compact layout. -/
def compact : Json → String
  | .null => "null"
  | .bool b => toString b
  | .int n => toString n
  | .float x => floatText x
  | .str s => quoteString s
  | .arr items => "[" ++ compactItems items ++ "]"
  | .obj fields => "\x7b" ++ compactFields fields ++ "\x7d"

/-- Array items in the compact layout. -/
def compactItems : List Json → String
  | [] => ""
  | [j] => compact j
  | j :: rest => compact j ++ "," ++ compactItems rest

/-- Object fields in the compact layout. -/
def compactFields : List (String × Json) → String
  | [] => ""
  | [(k, v)] => quoteString k ++ ":" ++ compact v
  | (k, v) :: rest => quoteString k ++ ":" ++ compact v ++ "," ++ compactFields rest

end

/-- Two spaces per level. -/
def indent (level : Nat) : String := String.ofList (List.replicate (2 * level) ' ')

mutual

/-- The pretty layout, at an indentation level. -/
def pretty (level : Nat) : Json → String
  | .arr [] => "[]"
  | .obj [] => "\x7b\x7d"
  | .arr items => "[\n" ++ prettyItems (level + 1) items ++ "\n" ++ indent level ++ "]"
  | .obj fields => "\x7b\n" ++ prettyFields (level + 1) fields ++ "\n" ++ indent level ++ "\x7d"
  | j => compact j

/-- Array items, one per line. -/
def prettyItems (level : Nat) : List Json → String
  | [] => ""
  | [j] => indent level ++ pretty level j
  | j :: rest => indent level ++ pretty level j ++ ",\n" ++ prettyItems level rest

/-- Object fields, one per line. -/
def prettyFields (level : Nat) : List (String × Json) → String
  | [] => ""
  | [(k, v)] => indent level ++ quoteString k ++ ": " ++ pretty level v
  | (k, v) :: rest =>
    indent level ++ quoteString k ++ ": " ++ pretty level v ++ ",\n" ++ prettyFields level rest

end

end Json

end ClaimStore.Text
