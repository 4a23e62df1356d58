/-! # Rounding of fractions

A fraction is rounded to a natural number, or to a number with a given number of
binary digits. A tie goes to the even neighbour.
-/
namespace PZero

/-- The nearest natural number to `num / den`; a tie goes to the even one. -/
def roundHalfEven (num den : Nat) : Nat :=
  let q := num / den
  let r := num % den
  if 2 * r < den || (2 * r == den && q % 2 == 0) then q else q + 1

/-- The largest power of two that is at most `num / den`, by its exponent. -/
def floorLog2 (num den : Nat) : Int :=
  let e : Int := (Nat.log2 num : Int) - Nat.log2 den
  if den <<< e.toNat ≤ num <<< (-e).toNat then e else e - 1

/-- Rounds a positive fraction to `precision` binary digits, none below `2 ^ least`: the mantissa
and its exponent. -/
def roundBinary (precision : Nat) (least : Int) (num den : Nat) : Nat × Int :=
  let q := max least (floorLog2 num den - (precision - 1 : Nat))
  (roundHalfEven (num <<< (-q).toNat) (den <<< q.toNat), q)

end PZero
