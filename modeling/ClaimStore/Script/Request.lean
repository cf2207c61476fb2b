import ClaimStore.Text.Json
/-!
# Reading requests

A request is a JSON object. A field that is absent or null is missing. Counts are integers from
0 to `2 ^ 64 - 1`, signed values integers within 64 bits. A malformed request is answered with a
sentence saying which field is wrong; the sentences are for people only.
-/

namespace ClaimStore.Script

open ClaimStore.Text

/-- Reading a request: a value, or the sentence that says what is malformed. -/
abbrev Read := Except String

/-- A field's value, if present and not null. -/
def opt (j : Json) (k : String) : Option Json :=
  match j.field? k with
  | some .null => none
  | v => v

/-- A field that must be present. -/
def need (j : Json) (k : String) : Read Json :=
  match opt j k with
  | some v => pure v
  | none => throw ("missing field " ++ k)

/-- A text. -/
def asText (k : String) : Json → Read String
  | .str s => pure s
  | _ => throw ("field " ++ k ++ " must be a string")

/-- A flag. -/
def asFlag (k : String) : Json → Read Bool
  | .bool b => pure b
  | _ => throw ("field " ++ k ++ " must be a boolean")

/-- A count: an integer from 0 to `2 ^ 64 - 1`. -/
def asCount (k : String) : Json → Read Nat
  | .int n => if 0 ≤ n ∧ n < 2 ^ 64 then pure n.toNat
    else throw ("field " ++ k ++ " must be a non-negative integer")
  | _ => throw ("field " ++ k ++ " must be a non-negative integer")

/-- A signed 64-bit integer. -/
def asSigned (k : String) : Json → Read Int
  | .int n => if -(2 ^ 63) ≤ n ∧ n < 2 ^ 63 then pure n
    else throw ("field " ++ k ++ " must be an integer")
  | _ => throw ("field " ++ k ++ " must be an integer")

/-- A number, integer or not. -/
def asNumber (k : String) : Json → Read Float
  | .int n => pure (if n < 0 then -(Float.ofNat n.natAbs) else Float.ofNat n.natAbs)
  | .float x => pure x
  | _ => throw ("field " ++ k ++ " must be a number")

/-- A list. -/
def asList (k : String) : Json → Read (List Json)
  | .arr xs => pure xs
  | _ => throw ("field " ++ k ++ " must be an array")

def text (j : Json) (k : String) : Read String := need j k >>= asText k
def flag (j : Json) (k : String) : Read Bool := need j k >>= asFlag k
def count (j : Json) (k : String) : Read Nat := need j k >>= asCount k
def signed (j : Json) (k : String) : Read Int := need j k >>= asSigned k
def number (j : Json) (k : String) : Read Float := need j k >>= asNumber k
def list (j : Json) (k : String) : Read (List Json) := need j k >>= asList k

/-- An optional field read with a reader. -/
def optional {α : Type} (j : Json) (k : String) (r : String → Json → Read α) : Read (Option α) :=
  match opt j k with
  | some v => some <$> r k v
  | none => pure none

def textOr (j : Json) (k d : String) : Read String := (·.getD d) <$> optional j k asText
def flagOr (j : Json) (k : String) (d : Bool) : Read Bool := (·.getD d) <$> optional j k asFlag
def countOr (j : Json) (k : String) (d : Nat) : Read Nat := (·.getD d) <$> optional j k asCount

/-! ## Answers -/

/-- An object answer. -/
def obj (fields : List (String × Json)) : Json := .obj fields

/-- An error answer of a kind, with its message. -/
def failure (kind message : String) : Json := obj [("error", .str kind), ("message", .str message)]

/-- A malformed request. -/
def badInput (message : String) : Json := failure "BadInput" message

/-- The answer `{"ok": true}`. -/
def done : Json := obj [("ok", .bool true)]

/-- The answer to a request, or to a malformed one. -/
def orBad (r : Read Json) : Json :=
  match r with
  | .ok j => j
  | .error m => badInput m

/-- Answers each step of a session in turn. A malformed step is answered with its sentence and
changes nothing; the session goes on. -/
def runSteps {σ : Type} (step : σ → Json → Read (Json × σ)) : σ → List Json → List Json
  | _, [] => []
  | s, j :: rest =>
    match step s j with
    | .ok (a, s') => a :: runSteps step s' rest
    | .error m => badInput m :: runSteps step s rest

/-- The answers of a session's steps. -/
def results (answers : List Json) : Json := obj [("results", .arr answers)]

end ClaimStore.Script
