import ClaimStore.Number.Fixed
/-!
# Shortest decimal digits of a double

The shortest form of a finite positive double is the decimal with the fewest significant digits
that reads back as the same double, and among those the one nearest to it. A decimal reads back
as the double `v = m * 2 ^ e` when it lies in the interval of reals that round to `v`: half a unit
of the last place on either side (a quarter below when `m` is the smallest normal mantissa), with
the ends included when `m` is even. For one to seventeen digits the two neighbours of `v` on that
decimal grid are tested in exact arithmetic; if a grid holds a point of the interval, one of the
two neighbours is in it.
-/

namespace ClaimStore.Number

/-- Compares `a * 10 ^ p * 2 ^ q` with `b * 10 ^ r * 2 ^ s` for integer exponents. -/
def scaledCompare (a : Nat) (p q : Int) (b : Nat) (r s : Int) : Ordering :=
  let tens := min p r
  let twos := min q s
  compare (a * 10 ^ (p - tens).toNat * 2 ^ (q - twos).toNat)
    (b * 10 ^ (r - tens).toNat * 2 ^ (s - twos).toNat)

/-- The exponent `k` with `10 ^ k ≤ m * 2 ^ e < 10 ^ (k + 1)`, for `m > 0`. -/
def decimalExponent (m : Nat) (e : Int) : Int :=
  let t : Int := (Nat.log2 m : Int) + e
  let guess := (t * 30103).fdiv 100000
  let up (k : Int) := if scaledCompare 1 (k + 1) 0 m 0 e != .gt then k + 1 else k
  let down (k : Int) := if scaledCompare m 0 e 1 k 0 == .lt then k - 1 else k
  down (down (up (up guess)))

/-- `⌊m * 2 ^ e / 10 ^ k⌋`. -/
def scaledFloor (m : Nat) (e k : Int) : Nat :=
  let num := m * 2 ^ e.toNat * 10 ^ (-k).toNat
  let den := 2 ^ (-e).toNat * 10 ^ k.toNat
  num / den

/-- The shortest digits and exponent `(d, k)` with `d * 10 ^ k` reading back as the double
`m * 2 ^ e`. -/
def shortestDigits (m : Nat) (e : Int) (lowerCloser : Bool) : Nat × Int :=
  let inclusive := m % 2 = 0
  -- the interval is [4m - lo, 4m + 2] in units of 2 ^ (e - 2)
  let lo := if lowerCloser then 1 else 2
  let inside (d : Nat) (k : Int) : Bool :=
    let above := scaledCompare d k 0 (4 * m - lo) 0 (e - 2)
    let below := scaledCompare d k 0 (4 * m + 2) 0 (e - 2)
    if inclusive then above != .lt && below != .gt else above == .gt && below == .lt
  let top := decimalExponent m e
  let rec search (fuel : Nat) (digits : Nat) : Nat × Int :=
    match fuel with
    | 0 => (scaledFloor m e (top - 16), top - 16)
    | fuel + 1 =>
      let k := top - (digits : Int) + 1
      let d := scaledFloor m e k
      let inLow := inside d k
      let inHigh := inside (d + 1) k
      if inLow && inHigh then
        -- the nearer one; a tie goes to the even digit
        match scaledCompare (2 * d + 1) k 0 (4 * m) 0 (e - 1) with
        | .lt => (d + 1, k)
        | .gt => (d, k)
        | .eq => if d % 2 = 0 then (d, k) else (d + 1, k)
      else if inLow then (d, k)
      else if inHigh then (d + 1, k)
      else search fuel (digits + 1)
  search 17 1

/-- Digits of a natural number without trailing zeros, and how many zeros were removed. -/
def stripZeros (d : Nat) : Nat × Nat :=
  let rec go (fuel d z : Nat) : Nat × Nat :=
    match fuel with
    | 0 => (d, z)
    | fuel + 1 => if d ≠ 0 ∧ d % 10 = 0 then go fuel (d / 10) (z + 1) else (d, z)
  go 20 d 0

/-- The shortest decimal of a finite double as a signed digit count `(digits, exponent)` with
value `digits * 10 ^ exponent`; zero is `(0, 0)`. -/
def Float.shortest (x : Float) : Int × Int :=
  let bits : Nat := x.toBits.toNat
  let negative := bits ≥ 2 ^ 63
  let (m, e) := Float.exact x
  if m = 0 then (0, 0)
  else
    let biased : Nat := (bits / 2 ^ 52) % 2 ^ 11
    let lowerCloser := bits % 2 ^ 52 = 0 && biased > 1
    let (d, k) := shortestDigits m e lowerCloser
    let (d, z) := stripZeros d
    ((if negative then -(d : Int) else d), k + z)

end ClaimStore.Number
