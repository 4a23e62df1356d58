import PZero.Single.Basic

/-! # Shortest decimal digits

The reals that round to a finite number form an interval around it, whose ends
belong to it when the mantissa is even. Decimal grids are tried from the coarsest
to the finest; on the first one with a point in the interval the point nearest to
the number is taken.
-/
namespace PZero

/-- Which of two equally near decimals is taken. -/
inductive Tie
  | up
  | even
  deriving DecidableEq

namespace Single

/-- The interval of a positive finite number on one decimal grid: all five quantities are in units
that make them whole. -/
structure Neighbourhood where
  low : Nat
  value : Nat
  high : Nat
  step : Nat
  closed : Bool

namespace Neighbourhood

def contains (n : Neighbourhood) (c : Nat) : Bool :=
  if n.closed then n.low ≤ c * n.step && c * n.step ≤ n.high
  else n.low < c * n.step && c * n.step < n.high

/-- The grid point to write, if a neighbour of the value on the grid lies in the interval. -/
def nearest? (n : Neighbourhood) (tie : Tie) : Option Nat :=
  let below := n.value / n.step
  let above := below + 1
  match n.contains below, n.contains above with
  | false, false => none
  | true, false => some below
  | false, true => some above
  | true, true =>
    let down := n.value - below * n.step
    let up := above * n.step - n.value
    if down < up then some below
    else if up < down then some above
    else match tie with
      | .up => some above
      | .even => some (if below % 2 == 0 then below else above)

end Neighbourhood

/-- The interval of `x` measured on the grid of the multiples of `10 ^ g`. -/
def neighbourhood (x : Single) (g : Int) : Neighbourhood :=
  let m := x.mantissa
  let q := x.exponent - 2
  let unit := Nat.pow 10 (-g).toNat <<< q.toNat
  -- Below a power of two the next number is only half as far away.
  let gap := if m == 1 <<< 23 && -149 < x.exponent then 1 else 2
  { low := (4 * m - gap) * unit
    value := 4 * m * unit
    high := (4 * m + 2) * unit
    step := Nat.pow 10 g.toNat <<< (-q).toNat
    closed := m % 2 == 0 }

/-- The coarsest grid is `10 ^ 40`; no number needs one finer than `10 ^ (-60)`. -/
def grids : List Int := (List.range 101).map fun (i : Nat) => 40 - (i : Int)

/-- The fewest digits that read back as `x`, and the power of ten of the last one. -/
def shortest (tie : Tie) (x : Single) : Nat × Int :=
  (grids.findSome? fun g => ((x.neighbourhood g).nearest? tie).map (·, g)).getD (0, 0)

end Single
end PZero
