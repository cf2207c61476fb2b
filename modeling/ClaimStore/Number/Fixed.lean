import ClaimStore.Prelude
/-!
# Fixed places

A finite non-negative double is written with a fixed number of digits after the point. The
digits are those of the exact binary value rounded to that many places, a tie going to the even
neighbour, so `0.25` with one place is `0.2` and `0.35` (just below 0.35 in binary) is `0.3`.
-/

namespace ClaimStore.Number

/-- The exact value of a finite double as `m * 2 ^ e`. Infinities and NaN have no exact value;
they give their raw payload, which no caller passes. -/
def Float.exact (x : Float) : Nat × Int :=
  let bits : Nat := x.toBits.toNat
  let biased : Nat := (bits / 2 ^ 52) % 2 ^ 11
  let fraction : Nat := bits % 2 ^ 52
  if biased = 0 then (fraction, -1074)
  else (fraction + 2 ^ 52, (biased : Int) - 1075)

/-- `num / den` rounded to the nearest natural number, a tie going to the even one. -/
def roundHalfEven (num den : Nat) : Nat :=
  let q := num / den
  let r := num % den
  if 2 * r < den then q
  else if 2 * r > den then q + 1
  else if q % 2 = 0 then q else q + 1

theorem roundHalfEven_exact (n d : Nat) (hd : 0 < d) : roundHalfEven (n * d) d = n := by
  unfold roundHalfEven
  simp [Nat.mul_div_cancel n hd, Nat.mul_mod_left, hd]

/-- A natural number `n` shown as `n / 10 ^ places` with exactly `places` digits after the point. -/
def withPoint (n places : Nat) : String :=
  if places = 0 then toString n
  else
    let digits := (toString n).toList
    let padded := List.replicate (places + 1 - digits.length) '0' ++ digits
    let cut := padded.length - places
    String.ofList (padded.take cut) ++ "." ++ String.ofList (padded.drop cut)

/-- A finite non-negative double with `places` digits after the point. -/
def fixed (x : Float) (places : Nat) : String :=
  let (m, e) := Float.exact x
  let scaled :=
    if 0 ≤ e then m * 2 ^ e.toNat * 10 ^ places
    else roundHalfEven (m * 10 ^ places) (2 ^ (-e).toNat)
  withPoint scaled places

end ClaimStore.Number
