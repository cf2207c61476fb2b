import ClaimStore.Text.Blank
import ClaimStore.Number.Decimal
import ClaimStore.Config.Issue
/-!
# Percentages, durations and data sizes

Settings are written as text. A percentage is one or two ASCII digits and a percent sign, with
blanks around allowed; its value is the fraction `n / 100`. A duration or a data size is a
decimal (digits with at most one point) whose nearest double is finite, followed by an optional
unit, blanks allowed around both. Durations have the units ms, s, m, h, d (with their long
spellings, in any ASCII case; no unit means seconds) and are counted in nanoseconds, rounded
half away from zero and capped at the largest 64-bit count. Data sizes have the units B, K, M, G, T (also KB, MB, GB, TB and
BYTES, in any ASCII case), binary multiples, and are counted in bytes, truncated and capped.
-/

namespace ClaimStore.Config

open ClaimStore.Text ClaimStore.Number

/-- The largest count a 64-bit unsigned word holds. -/
def wordMax : Nat := 2 ^ 64 - 1

/-- A percentage as a fraction: the digits that pass the format are read as a 32-bit word. -/
def parsePercentage (text : String) : Except Issue Float :=
  let body := (trim text).toList
  match body.reverse with
  | '%' :: ds =>
    let digits := ds.reverse
    if 1 ≤ digits.length ∧ digits.length ≤ 2 ∧ digits.all Char.isDigit then
      match readUnsigned? 32 (String.ofList digits) with
      | some n => .ok (n.toFloat / 100.0)
      | none => .error (.unreadablePercentage text)
    else .error (.badPercentage text)
  | _ => .error (.badPercentage text)

/-- Splits a quantity into its value and its unit (without blanks around), or `none` when the
number part is no decimal. -/
def splitQuantity (text : String) : Option (Float × String) :=
  let body := (trim text).toList
  let number := body.takeWhile (fun c => c.isDigit || c = '.')
  let unit := body.dropWhile (fun c => c.isDigit || c = '.')
  match readDecimal? (String.ofList number) with
  | some value =>
    -- a decimal has no sign: the only number refused is one too large to be a finite double
    if finiteDecimal (String.ofList number) then some (value, trim (String.ofList unit)) else none
  | none => none

/-- Nanoseconds in one of a duration unit (given in lower case); each is exact as a double. -/
def durationUnit? : String → Option Nat
  | "ms" | "milli" | "millis" | "millisecond" | "milliseconds" => some (10 ^ 6)
  | "" | "s" | "sec" | "secs" | "second" | "seconds" => some (10 ^ 9)
  | "m" | "min" | "mins" | "minute" | "minutes" => some (60 * 10 ^ 9)
  | "h" | "hr" | "hrs" | "hour" | "hours" => some (3600 * 10 ^ 9)
  | "d" | "day" | "days" => some (86400 * 10 ^ 9)
  | _ => none

/-- Reads a quantity: the number part, then the unit with its case folded by `fold` and looked
up by `unitOf?`, and `finish` makes a count of the value and the unit's amount. A text whose
number part does not read is refused with `badNumber`, an unknown unit with `badUnit` of the
folded unit. -/
def readQuantity (badNumber : Issue) (badUnit : String → Issue) (fold : Char → Char)
    (unitOf? : String → Option Nat) (finish : Float → Nat → Nat) (text : String) :
    Except Issue Nat :=
  match splitQuantity text with
  | none => .error badNumber
  | some (value, unit) =>
    let folded := unit.map fold
    match unitOf? folded with
    | some amount => .ok (finish value amount)
    | none => .error (badUnit folded)

/-- A duration in nanoseconds. -/
def parseDuration (text : String) : Except Issue Nat :=
  readQuantity (.badDuration text) (.durationUnit text) Char.toLower durationUnit?
    (fun value nanos => (value * nanos.toFloat).round.toUInt64.toNat) text

/-- Bytes in one of a data size unit (given in upper case). -/
def sizeUnit? : String → Option Nat
  | "" | "B" | "BYTES" => some 1
  | "KB" | "K" => some (2 ^ 10)
  | "MB" | "M" => some (2 ^ 20)
  | "GB" | "G" => some (2 ^ 30)
  | "TB" | "T" => some (2 ^ 40)
  | _ => none

/-- A data size in bytes. -/
def parseDataSize (text : String) : Except Issue Nat :=
  readQuantity (.badDataSize text) (.dataSizeUnit text) Char.toUpper sizeUnit?
    (fun value bytes => (value * bytes.toFloat).toUInt64.toNat) text

end ClaimStore.Config
