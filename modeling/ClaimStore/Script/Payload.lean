import ClaimStore.Script.Request
/-!
# Byte payloads

A payload in a request is text (`data`, its UTF-8 bytes), hexadecimal digits (`hex`), or
`repeat` (`count` copies of `byte`); none of them is the empty payload. A payload in an answer
is its length with its text when the bytes are UTF-8, and with lower-case hexadecimal digits
otherwise.
-/

namespace ClaimStore.Script

open ClaimStore.Text

/-- The value of a hexadecimal digit. -/
def hexValue? (c : Char) : Option Nat :=
  if '0' ≤ c ∧ c ≤ '9' then some (c.toNat - '0'.toNat)
  else if 'a' ≤ c ∧ c ≤ 'f' then some (c.toNat - 'a'.toNat + 10)
  else if 'A' ≤ c ∧ c ≤ 'F' then some (c.toNat - 'A'.toNat + 10)
  else none

/-- Pairs of hexadecimal digits as bytes. -/
def hexPairs : List Char → Read (List UInt8)
  | a :: b :: rest =>
    match hexValue? a, hexValue? b with
    | some x, some y => (UInt8.ofNat (16 * x + y) :: ·) <$> hexPairs rest
    | _, _ => throw "invalid hex"
  | _ => pure []

/-- Bytes written as an even number of ASCII hexadecimal digits. -/
def hexBytes (s : String) : Read ByteArray :=
  if s.toList.all (·.toNat < 128) && s.length % 2 == 0 then
    (fun bs => ⟨bs.toArray⟩) <$> hexPairs s.toList
  else throw "hex must be an even number of ASCII hex digits"

/-- The payload of a request. -/
def readPayload (j : Json) : Read ByteArray := do
  match ← optional j "data" asText with
  | some s => pure s.toUTF8
  | none =>
  match ← optional j "hex" asText with
  | some s => hexBytes s
  | none =>
  match opt j "repeat" with
  | some r =>
    let b ← count r "byte"
    if b ≥ 256 then throw "field byte must be a byte"
    pure ⟨(List.replicate (← count r "count") (UInt8.ofNat b)).toArray⟩
  | none => pure ByteArray.empty

/-- Two lower-case hexadecimal digits of a byte. -/
def hexByte (b : UInt8) : String :=
  let d (n : Nat) : Char := if n < 10 then Char.ofNat (48 + n) else Char.ofNat (87 + n)
  String.ofList [d (b.toNat / 16), d (b.toNat % 16)]

/-- A payload's fields in an answer. -/
def payloadFields (bs : ByteArray) : List (String × Json) :=
  ("len", .nat bs.size) ::
    match String.fromUTF8? bs with
    | some s => [("data", .str s)]
    | none => [("hex", .str (String.join (bs.toList.map hexByte)))]

end ClaimStore.Script
