import PZero.Decimal
import PZero.Double

/-! # Numerals of data files

An optional minus, digits without a superfluous leading zero, an optional point
with digits on both sides, an optional exponent. A numeral that is no integer of 64
bits stands for a number of double precision, which need not be the nearest one: it
is computed from the leading digits with one multiplication or division.
-/
namespace PZero.Json

/-- The parts of a numeral; either list holds digits. -/
structure Numeral where
  negative : Bool
  whole : List Char
  fraction : List Char
  exponent : Int
  deriving DecidableEq, Inhabited

/-- Takes digits into a number as long as it stays below `2 ^ 64`; the remaining ones are left. -/
def absorb (n : Nat) : List Char → Nat × List Char
  | [] => (n, [])
  | c :: rest =>
    let next := 10 * n + (c.toNat - '0'.toNat)
    if next < UInt64.size then absorb next rest else (n, c :: rest)

/-- The greatest power of ten of double precision. -/
def greatestPower : Nat := 308

/-- Divides by a power of ten, in steps of the greatest one at most. -/
def shrink (x : Double) (n : Nat) : Double :=
  if n ≤ greatestPower then x.div (.powerOfTen n)
  else if x.isZero then x
  else shrink (x.div (.powerOfTen greatestPower)) (n - greatestPower)
termination_by n
decreasing_by simp only [greatestPower] at *; omega

/-- Multiplies by a power of ten; `none` when the result is not finite. -/
def scale? (x : Double) (exponent : Int) : Option Double :=
  if exponent < 0 then some (shrink x (-exponent).toNat)
  else if x.isZero then some x
  else if greatestPower < exponent then none
  else
    let y := x.mul (.powerOfTen exponent.toNat)
    if y.isFinite then some y else none

namespace Numeral

def ofChars? (cs : List Char) : Option Numeral :=
  let (negative, cs) := match cs with
    | '-' :: rest => (true, rest)
    | rest => (false, rest)
  let (whole, rest) := Decimal.spanDigits cs
  if whole.isEmpty || (whole.length > 1 && whole.head? == some '0') then none
  else
    let (fraction, rest) := Decimal.fraction? rest
    if fraction == some [] then none
    else (Decimal.exponent? rest).map (⟨negative, whole, fraction.getD [], ·⟩)

/-- The digits that count and the power of ten that goes with them. Both parts are absorbed up to
the first digit that does not fit; a whole digit that is left counts as a zero. -/
def leading (n : Numeral) : Nat × Int :=
  let (m, whole) := absorb 0 n.whole
  let (m, fraction) := absorb m n.fraction
  (m, n.exponent + whole.length + fraction.length - n.fraction.length)

/-- The absolute value in double precision: the leading digits and the power of ten are each
rounded before they are multiplied. -/
def double? (n : Numeral) : Option Double := scale? (.ofRatio n.leading.1 1) n.leading.2

end Numeral

/-- A numeral that is a plain natural number below `bound`. -/
def natBelow? (bound : Nat) (literal : String) : Option Nat :=
  let cs := literal.toList
  if !cs.isEmpty && cs.all Char.isDigit && Decimal.natOfDigits cs < bound
  then some (Decimal.natOfDigits cs) else none

/-- A numeral that is a plain integer with `-bound ≤ n < bound`; minus zero is not one. -/
def intWithin? (bound : Nat) (literal : String) : Option Int :=
  match literal.toList with
  | '-' :: cs =>
    let n := Decimal.natOfDigits cs
    if !cs.isEmpty && cs.all Char.isDigit && 0 < n && n ≤ bound then some (-(n : Int)) else none
  | _ => (natBelow? bound literal).map Int.ofNat

end PZero.Json
