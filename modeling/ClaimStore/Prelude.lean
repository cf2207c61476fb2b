/-!
# Core's instances first

The library is read on its own and beside Mathlib and Batteries, which give the natural numbers
a power and a zero of their own (from their algebra), lists an order and byte arrays an equality
of their own. Core's instances go first, so that a power `2 ^ 64`, a sum of counts, the order of
places or the equality of bytes means the same wherever the library is read: `Nat.pow` (also as
the default for a power whose exponent's type is not yet known), the literal `0` as the zero of
a sum, core's lexicographic order of lists and core's equality of byte arrays.
-/

attribute [instance (20000)] instPowNat Zero.ofOfNat0 List.instLE List.decidableLE
attribute [instance (20000)] ByteArray.instDecidableEq
attribute [default_instance 20000] instPowNat
