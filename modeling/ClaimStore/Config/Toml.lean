import ClaimStore.Prelude
/-!
# TOML documents

The configuration file is a TOML document: lines of `key = value`, table headers `[a.b]` and
array-of-table headers `[[a]]`, with `#` comments. Keys are bare (letters, digits, `_`, `-`) or
quoted, and may be dotted. Values are strings (basic with escapes, literal, and both multi-line
forms), integers (decimal with single underscores between digits and no leading zero, or `0x`,
`0o`, `0b`; all within signed 64 bits), floats, booleans, date-times, arrays and inline tables.
A key may be defined once, a table header used once.

Every step parser takes the remaining characters and returns what it read with the rest, or
`none` when the text is no TOML. Each reader carries a fuel, the length of the text it started
on, so that all of them are total.
-/

namespace ClaimStore.Config.Toml

/-- A TOML value. Floats and date-times are kept only as what they are: the configuration has no
setting of those types. -/
inductive Value where
  | string (s : String)
  | integer (n : Int)
  | float
  | boolean (b : Bool)
  | datetime
  | array (items : List Value)
  | table (entries : List (String × Value))
  deriving Repr, Inhabited

/-- A document: the entries of its root table, in the order they were defined. -/
abbrev Table := List (String × Value)

/-- A step parser over characters. -/
abbrev Step (α : Type) := List Char → Option (α × List Char)

/-- Characters of a bare key. -/
def isBareKeyChar (c : Char) : Bool :=
  c.isAlphanum || c = '_' || c = '-'

/-- Spaces and tabs, the blanks inside a line. -/
def isSpace (c : Char) : Bool := c = ' ' || c = '\t'

/-- Drops spaces and tabs. -/
def skipSpaces (cs : List Char) : List Char := cs.dropWhile isSpace

/-- A character allowed in a comment or a string: no control character but the tab. -/
def isTextChar (c : Char) : Bool :=
  c = '\t' || (c.toNat ≥ 0x20 && c.toNat ≠ 0x7F)

/-- Not the end of a line. -/
def notLineEnd (c : Char) : Bool := c ≠ '\n' && c ≠ '\r'

/-- Drops a comment up to (not including) the end of its line; `none` for a control character
inside it. -/
def skipComment : List Char → Option (List Char)
  | '#' :: rest =>
    if (rest.takeWhile notLineEnd).all isTextChar then some (rest.dropWhile notLineEnd) else none
  | cs => some cs

/-- Reads an end of line, or the end of the text. -/
def lineEnd : List Char → Option (List Char)
  | [] => some []
  | '\n' :: rest => some rest
  | '\r' :: '\n' :: rest => some rest
  | _ => none

/-- Drops blanks, newlines and comments. -/
def skipBlankLines : Nat → List Char → Option (List Char)
  | 0, cs => some cs
  | fuel + 1, cs =>
    match skipSpaces cs with
    | '#' :: rest => (skipComment ('#' :: rest)).bind (skipBlankLines fuel)
    | '\n' :: rest => skipBlankLines fuel rest
    | '\r' :: '\n' :: rest => skipBlankLines fuel rest
    | rest => some rest

/-- The value of a digit in a base up to 16. -/
def digitIn (base : Nat) (d : Char) : Option Nat :=
  let v := if d.isDigit then d.toNat - '0'.toNat
    else if 'a' ≤ d ∧ d ≤ 'f' then d.toNat - 'a'.toNat + 10
    else if 'A' ≤ d ∧ d ≤ 'F' then d.toNat - 'A'.toNat + 10
    else 99
  if v < base then some v else none

/-- The value of digits in a base. -/
def digitsIn (base : Nat) (ds : List Char) : Option Nat :=
  ds.foldlM (fun n d => (digitIn base d).map (base * n + ·)) 0

/-- A Unicode scalar value: no surrogate, at most 0x10FFFF. -/
def scalar? (n : Nat) : Option Char :=
  if n < 0xD800 ∨ (0xDFFF < n ∧ n < 0x110000) then some (Char.ofNat n) else none

/-- Reads `count` hexadecimal digits naming a scalar value. -/
def hexScalar (count : Nat) (cs : List Char) : Option (Char × List Char) :=
  if (cs.take count).length = count then
    (digitsIn 16 (cs.take count)).bind fun n => (scalar? n).map (·, cs.drop count)
  else none

/-- Reads one escape after a backslash in a basic string. -/
def escape : Step Char
  | 'b' :: rest => some ('\x08', rest)
  | 't' :: rest => some ('\t', rest)
  | 'n' :: rest => some ('\n', rest)
  | 'f' :: rest => some ('\x0c', rest)
  | 'r' :: rest => some ('\r', rest)
  | '"' :: rest => some ('"', rest)
  | '\\' :: rest => some ('\\', rest)
  | 'u' :: rest => hexScalar 4 rest
  | 'U' :: rest => hexScalar 8 rest
  | _ => none

/-- Reads the rest of a one-line basic string after its opening quote. -/
def basicString : Nat → List Char → Step String
  | 0, _, _ => none
  | _ + 1, _, [] => none
  | _ + 1, acc, '"' :: rest => some (String.ofList acc.reverse, rest)
  | fuel + 1, acc, '\\' :: rest =>
    (escape rest).bind fun (c, rest) => basicString fuel (c :: acc) rest
  | fuel + 1, acc, c :: rest => if isTextChar c then basicString fuel (c :: acc) rest else none

/-- Reads the rest of a one-line literal string after its opening apostrophe. -/
def literalString (cs : List Char) : Option (String × List Char) :=
  let body := cs.takeWhile (fun c => c ≠ '\x27' && notLineEnd c)
  match cs.dropWhile (fun c => c ≠ '\x27' && notLineEnd c) with
  | '\x27' :: rest => if body.all isTextChar then some (String.ofList body, rest) else none
  | _ => none

/-- Drops the newline that may follow the opening delimiter of a multi-line string. -/
def dropFirstNewline : List Char → List Char
  | '\n' :: rest => rest
  | '\r' :: '\n' :: rest => rest
  | cs => cs

/-- After a line-ending backslash: drops blanks and newlines. -/
def trimContinuation (cs : List Char) : List Char :=
  cs.dropWhile (fun c => isSpace c || c = '\n' || c = '\r')

/-- Whether a backslash stands last on its line (only blanks after it). -/
def endsLine (cs : List Char) : Bool :=
  match skipSpaces cs with
  | '\n' :: _ | '\r' :: '\n' :: _ => true
  | _ => false

/-- Reads the rest of a multi-line basic string after its opening quotes; up to two quotes may
stand just before the closing three. -/
def multiBasic : Nat → List Char → Step String
  | 0, _, _ => none
  | _ + 1, _, [] => none
  | _ + 1, acc, '"' :: '"' :: '"' :: '"' :: '"' :: rest =>
    some (String.ofList ('"' :: '"' :: acc).reverse, rest)
  | _ + 1, acc, '"' :: '"' :: '"' :: '"' :: rest => some (String.ofList ('"' :: acc).reverse, rest)
  | _ + 1, acc, '"' :: '"' :: '"' :: rest => some (String.ofList acc.reverse, rest)
  | fuel + 1, acc, '\\' :: rest =>
    if endsLine rest then multiBasic fuel acc (trimContinuation rest)
    else (escape rest).bind fun (c, rest) => multiBasic fuel (c :: acc) rest
  | fuel + 1, acc, '\r' :: '\n' :: rest => multiBasic fuel ('\n' :: acc) rest
  | fuel + 1, acc, c :: rest =>
    if isTextChar c || c = '\n' then multiBasic fuel (c :: acc) rest else none

/-- Reads the rest of a multi-line literal string after its opening apostrophes. -/
def multiLiteral : Nat → List Char → Step String
  | 0, _, _ => none
  | _ + 1, _, [] => none
  | _ + 1, acc, '\x27' :: '\x27' :: '\x27' :: '\x27' :: '\x27' :: rest =>
    some (String.ofList ('\x27' :: '\x27' :: acc).reverse, rest)
  | _ + 1, acc, '\x27' :: '\x27' :: '\x27' :: '\x27' :: rest =>
    some (String.ofList ('\x27' :: acc).reverse, rest)
  | _ + 1, acc, '\x27' :: '\x27' :: '\x27' :: rest => some (String.ofList acc.reverse, rest)
  | fuel + 1, acc, '\r' :: '\n' :: rest => multiLiteral fuel ('\n' :: acc) rest
  | fuel + 1, acc, c :: rest =>
    if isTextChar c || c = '\n' then multiLiteral fuel (c :: acc) rest else none

/-- Reads a string of any of the four kinds. -/
def stringValue (cs : List Char) : Option (String × List Char) :=
  match cs with
  | '"' :: '"' :: '"' :: rest => multiBasic (cs.length + 1) [] (dropFirstNewline rest)
  | '"' :: rest => basicString (cs.length + 1) [] rest
  | '\x27' :: '\x27' :: '\x27' :: rest => multiLiteral (cs.length + 1) [] (dropFirstNewline rest)
  | '\x27' :: rest => literalString rest
  | _ => none

/-- Reads one key part: bare or quoted (not multi-line). -/
def keyPart (cs : List Char) : Option (String × List Char) :=
  match cs with
  | '"' :: '"' :: '"' :: _ => none
  | '"' :: rest => basicString (cs.length + 1) [] rest
  | '\x27' :: '\x27' :: '\x27' :: _ => none
  | '\x27' :: rest => literalString rest
  | _ =>
    let bare := cs.takeWhile isBareKeyChar
    if bare.isEmpty then none else some (String.ofList bare, cs.dropWhile isBareKeyChar)

/-- Reads a dotted key, with blanks allowed around the dots. -/
def dottedKey : Nat → Step (List String)
  | 0, _ => none
  | fuel + 1, cs =>
    (keyPart (skipSpaces cs)).bind fun (k, rest) =>
      match skipSpaces rest with
      | '.' :: more => (dottedKey fuel more).map fun (ks, rest) => (k :: ks, rest)
      | rest => some ([k], rest)

/-- Digits with single underscores between them: the digits, or `none` when an underscore is
doubled, leading or trailing. -/
def underscored (cs : List Char) : Option (List Char) :=
  if cs.isEmpty || cs.head? = some '_' || cs.getLast? = some '_' then none
  else if (cs.zip cs.tail).any (fun p => p.1 = '_' && p.2 = '_') then none
  else some (cs.filter (· ≠ '_'))

/-- The least and greatest signed 64-bit integers. -/
def intMin : Int := -(2 ^ 63)
def intMax : Int := 2 ^ 63 - 1

/-- A signed 64-bit integer, or `none` outside that range. -/
def inRange (n : Int) : Option Int := if intMin ≤ n ∧ n ≤ intMax then some n else none

/-- Reads an integer token. -/
def integerToken (t : List Char) : Option Int :=
  match t with
  | '0' :: 'x' :: ds => (underscored ds).bind (digitsIn 16) |>.bind (inRange ·)
  | '0' :: 'o' :: ds => (underscored ds).bind (digitsIn 8) |>.bind (inRange ·)
  | '0' :: 'b' :: ds => (underscored ds).bind (digitsIn 2) |>.bind (inRange ·)
  | _ =>
    let (negative, body) := match t with
      | '-' :: rest => (true, rest)
      | '+' :: rest => (false, rest)
      | _ => (false, t)
    (underscored body).bind fun ds =>
      if !ds.all Char.isDigit || (ds.length > 1 && ds.head? = some '0') then none
      else
        let n : Int := (digitsIn 10 ds).getD 0
        inRange (if negative then -n else n)

/-- Whether a token is a float: decimal integer part, then a fraction, an exponent or both; or
`inf` and `nan` with an optional sign. -/
def isFloatToken (t : List Char) : Bool :=
  let body := match t with
    | '-' :: rest | '+' :: rest => rest
    | _ => t
  if body = "inf".toList || body = "nan".toList then true
  else
    let whole := body.takeWhile (fun c => c.isDigit || c = '_')
    let rest := body.dropWhile (fun c => c.isDigit || c = '_')
    let wholeOk := match underscored whole with
      | some ds => !(ds.length > 1 && ds.head? = some '0')
      | none => false
    let exponentOk (e : List Char) : Bool :=
      let e := match e with
        | '-' :: r | '+' :: r => r
        | _ => e
      (underscored e).isSome && e.all (fun c => c.isDigit || c = '_')
    wholeOk && match rest with
      | '.' :: frac =>
        let digits := frac.takeWhile (fun c => c.isDigit || c = '_')
        let after := frac.dropWhile (fun c => c.isDigit || c = '_')
        (underscored digits).isSome && match after with
          | [] => true
          | 'e' :: e | 'E' :: e => exponentOk e
          | _ => false
      | 'e' :: e | 'E' :: e => exponentOk e
      | _ => false

/-- Whether a token is a date, a time or a date-time (with `T`, `t` or a blank between). -/
def isDateTimeToken (t : List Char) : Bool :=
  let digitsAt (ps : List Nat) := ps.all fun p => (t.getD p 'x').isDigit
  let isDate := t.length ≥ 10 && digitsAt [0, 1, 2, 3, 5, 6, 8, 9] &&
    t.getD 4 'x' = '-' && t.getD 7 'x' = '-'
  let isTime (u : List Char) := u.length ≥ 8 && (u.getD 0 'x').isDigit &&
    (u.getD 1 'x').isDigit && u.getD 2 'x' = ':' && (u.getD 3 'x').isDigit &&
    (u.getD 4 'x').isDigit && u.getD 5 'x' = ':' && (u.getD 6 'x').isDigit &&
    (u.getD 7 'x').isDigit
  isTime t || (isDate && (t.length = 10 ||
    ((t.getD 10 'x' = 'T' || t.getD 10 'x' = 't' || t.getD 10 'x' = ' ') && isTime (t.drop 11))))

/-- Characters that may continue a bare value token. -/
def isTokenChar (c : Char) : Bool :=
  c.isAlphanum || c = '_' || c = '-' || c = '+' || c = '.' || c = ':'

/-- Reads a bare value: boolean, number or date-time. A date may be followed by a blank and a
time. -/
def scalarValue (cs : List Char) : Option (Value × List Char) :=
  let token := cs.takeWhile isTokenChar
  let rest := cs.dropWhile isTokenChar
  -- a date, a blank and a time form one value
  let (token, rest) := match rest with
    | ' ' :: more =>
      let t2 := more.takeWhile isTokenChar
      if isDateTimeToken token && token.length = 10 && isDateTimeToken (token ++ [' '] ++ t2)
      then (token ++ [' '] ++ t2, more.dropWhile isTokenChar) else (token, rest)
    | _ => (token, rest)
  if token.isEmpty then none
  else if token = "true".toList then some (.boolean true, rest)
  else if token = "false".toList then some (.boolean false, rest)
  else match integerToken token with
    | some n => some (.integer n, rest)
    | none =>
      if isFloatToken token then some (.float, rest)
      else if isDateTimeToken token then some (.datetime, rest)
      else none

/-- Where a dotted key leads inside a table that is still open for new keys: creates the
intermediate tables, refuses to pass through anything but a table. -/
def insertKey : List String → Value → Table → Option Table
  | [], _, _ => none
  | [k], v, t => if t.any (·.1 == k) then none else some (t ++ [(k, v)])
  | k :: ks, v, t =>
    match t.find? (·.1 == k) with
    | none => (insertKey ks v []).map fun sub => t ++ [(k, .table sub)]
    | some (_, .table sub) =>
      (insertKey ks v sub).map fun sub => t.map fun e => if e.1 == k then (k, .table sub) else e
    | some _ => none

/-- Reads a value; arrays and inline tables nest with the fuel. -/
def value : Nat → Step Value
  | 0, _ => none
  | fuel + 1, cs =>
    match cs with
    | '"' :: _ | '\x27' :: _ => (stringValue cs).map fun (s, rest) => (.string s, rest)
    | '[' :: rest => (arrayItems fuel [] rest).map fun (items, rest) => (.array items, rest)
    | '\x7b' :: rest =>
      match skipSpaces rest with
      | '\x7d' :: rest => some (.table [], rest)
      | rest => (inlineEntries fuel [] rest).map fun (t, rest) => (.table t, rest)
    | _ => scalarValue cs
where
  /-- The items of an array after its opening bracket, up to and including the closing one. -/
  arrayItems : Nat → List Value → Step (List Value)
    | 0, _, _ => none
    | fuel + 1, acc, cs =>
      (skipBlankLines (cs.length + 1) cs).bind fun cs =>
        match cs with
        | ']' :: rest => some (acc.reverse, rest)
        | _ =>
          (value fuel cs).bind fun (v, rest) =>
            (skipBlankLines (rest.length + 1) rest).bind fun rest =>
              match rest with
              | ',' :: more => arrayItems fuel (v :: acc) more
              | ']' :: more => some ((v :: acc).reverse, more)
              | _ => none
  /-- The entries of an inline table after its opening brace, up to and including the closing
  one. -/
  inlineEntries : Nat → Table → Step Table
    | 0, _, _ => none
    | fuel + 1, acc, cs =>
      (dottedKey (cs.length + 1) cs).bind fun (key, rest) =>
        match skipSpaces rest with
        | '=' :: rest =>
          (value fuel (skipSpaces rest)).bind fun (v, rest) =>
            (insertKey key v acc).bind fun acc =>
              match skipSpaces rest with
              | ',' :: more => inlineEntries fuel acc more
              | '\x7d' :: more => some (acc, more)
              | _ => none
        | _ => none

/-- The state of reading a document: the tables so far, the path of the current table, and the
paths that a header has opened. -/
structure Reading where
  root : Table
  current : List String
  headed : List (List String)

/-- Applies a change to the table at a path: through tables, and through the last table of an
array of tables. -/
def atPath : List String → (Table → Option Table) → Table → Option Table
  | [], f, t => f t
  | k :: ks, f, t =>
    match t.find? (·.1 == k) with
    | some (_, .table sub) =>
      (atPath ks f sub).map fun sub => t.map fun e => if e.1 == k then (k, .table sub) else e
    | some (_, .array items) =>
      match items.getLast? with
      | some (.table sub) =>
        (atPath ks f sub).map fun sub =>
          t.map fun e => if e.1 == k then (k, .array (items.dropLast ++ [.table sub])) else e
      | _ => none
    | some _ => none
    | none => (atPath ks f []).map fun sub => t ++ [(k, .table sub)]

/-- Opens a table header `[path]`. -/
def openTable (r : Reading) (path : List String) : Option Reading :=
  if r.headed.contains path then none
  else
    let open1 (t : Table) : Option Table := some t
    (atPath path open1 r.root).map fun root => ⟨root, path, path :: r.headed⟩

/-- Opens an array-of-tables header `[[path]]`: appends a fresh table to the array. -/
def openArrayTable (r : Reading) (path : List String) : Option Reading :=
  match path.reverse with
  | [] => none
  | last :: parentRev =>
    let parent := parentRev.reverse
    let append (t : Table) : Option Table :=
      match t.find? (·.1 == last) with
      | none => some (t ++ [(last, .array [.table []])])
      | some (_, .array items) =>
        if items.all (fun v => match v with | .table _ => true | _ => false) then
          some (t.map fun e => if e.1 == last then (last, .array (items ++ [.table []])) else e)
        else none
      | some _ => none
    (atPath parent append r.root).map fun root =>
      ⟨root, path, r.headed.filter (fun p => !(path.isPrefixOf p && p ≠ path))⟩

/-- Reads the end of a statement: blanks, an optional comment, an end of line. -/
def statementEnd (cs : List Char) : Option (List Char) :=
  (skipComment (skipSpaces cs)).bind lineEnd

/-- Reads the statements of a document. -/
def statements : Nat → Reading → List Char → Option Reading
  | 0, _, _ => none
  | fuel + 1, r, cs =>
    (skipBlankLines (cs.length + 1) cs).bind fun cs =>
      match cs with
      | [] => some r
      | '[' :: '[' :: rest =>
        (dottedKey (rest.length + 1) rest).bind fun (path, rest) =>
          match skipSpaces rest with
          | ']' :: ']' :: rest =>
            (openArrayTable r path).bind fun r =>
              (statementEnd rest).bind (statements fuel r)
          | _ => none
      | '[' :: rest =>
        (dottedKey (rest.length + 1) rest).bind fun (path, rest) =>
          match skipSpaces rest with
          | ']' :: rest =>
            (openTable r path).bind fun r => (statementEnd rest).bind (statements fuel r)
          | _ => none
      | _ =>
        (dottedKey (cs.length + 1) cs).bind fun (key, rest) =>
          match skipSpaces rest with
          | '=' :: rest =>
            (value (rest.length + 1) (skipSpaces rest)).bind fun (v, rest) =>
              (atPath r.current (insertKey key v) r.root).bind fun root =>
                (statementEnd rest).bind (statements fuel { r with root := root })
          | _ => none

/-- Reads a TOML document into its root table, or `none` when the text is no TOML. -/
def parse (text : String) : Option Table :=
  let cs := text.toList
  (statements (cs.length + 1) ⟨[], [], []⟩ cs).map (·.root)

end ClaimStore.Config.Toml
