import ClaimStore.Prelude
/-!
# Reading decimal numbers

An unsigned decimal is a run of ASCII digits, a plus sign allowed before it, whose value fits in
the given number of bits.

A decimal here is a run of ASCII digits with at most one point, and at least one digit: `5`,
`5.`, `.5` and `0.25` are decimals, `.`, the empty text and `1.2.3` are not. Its value is the
double nearest to the exact rational it denotes (ties to even), which core's `Float.ofScientific`
computes; that double is infinite from `2 ^ 1024 - 2 ^ 970` on.
-/

namespace ClaimStore.Number

/-- The value of a list of ASCII digits, most significant first. -/
def digitsValue (ds : List Char) : Nat :=
  ds.foldl (fun n d => 10 * n + (d.toNat - '0'.toNat)) 0

/-- An unsigned decimal of `bits` bits: ASCII digits after an optional plus sign, at least one
digit, and a value below `2 ^ bits`. -/
def readUnsigned? (bits : Nat) (s : String) : Option Nat :=
  let cs := match s.toList with
    | '+' :: rest => rest
    | cs => cs
  if cs.isEmpty || !cs.all Char.isDigit then none
  else
    let n := digitsValue cs
    if n < 2 ^ bits then some n else none

/-- Splits a decimal into the digits before and after its point; `none` for anything that is no
decimal. -/
def splitDecimal (cs : List Char) : Option (List Char × List Char) :=
  let whole := cs.takeWhile Char.isDigit
  let rest := cs.dropWhile Char.isDigit
  match rest with
  | [] => if whole.isEmpty then none else some (whole, [])
  | '.' :: frac =>
    if frac.all Char.isDigit && !(whole.isEmpty && frac.isEmpty) then some (whole, frac)
    else none
  | _ => none

/-- The double nearest to a decimal, or `none` when the text is no decimal. -/
def readDecimal? (s : String) : Option Float :=
  (splitDecimal s.toList).map fun (whole, frac) =>
    Float.ofScientific (digitsValue (whole ++ frac)) true frac.length

/-- The least value that a double rounds to infinity: halfway between the largest double,
`2 ^ 1024 - 2 ^ 971`, and `2 ^ 1024`, a tie that goes to the even neighbour, infinity. -/
def doubleOverflow : Nat := 2 ^ 1024 - 2 ^ 970

/-- Whether the double nearest to a decimal is finite: the decimal's value lies below
`doubleOverflow`. False for anything that is no decimal. -/
def finiteDecimal (s : String) : Bool :=
  match splitDecimal s.toList with
  | some (whole, frac) => digitsValue (whole ++ frac) < doubleOverflow * 10 ^ frac.length
  | none => false

theorem splitDecimal_nil : splitDecimal [] = none := rfl

theorem splitDecimal_point : splitDecimal ['.'] = none := rfl

end ClaimStore.Number
