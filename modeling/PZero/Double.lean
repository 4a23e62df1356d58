import PZero.Rounding

/-! # Double precision

Nonnegative numbers with 53 binary digits. A product or quotient is the exact one,
rounded once; one that is too large keeps its value and is not finite.
-/
namespace PZero

/-- The number `mantissa * 2 ^ exponent`. -/
structure Double where
  mantissa : Nat
  exponent : Int
  deriving DecidableEq, Inhabited

namespace Double

/-- The number is `num / den`. -/
def num (x : Double) : Nat := x.mantissa <<< x.exponent.toNat

def den (x : Double) : Nat := 1 <<< (-x.exponent).toNat

def isZero (x : Double) : Bool := x.mantissa == 0

/-- Infinity begins at `2 ^ 1024`. -/
def isFinite (x : Double) : Bool := x.num < x.den <<< 1024

/-- The nearest number to a fraction. -/
def ofRatio (num den : Nat) : Double :=
  if num == 0 then ⟨0, 0⟩
  else
    let (m, q) := roundBinary 53 (-1074) num den
    ⟨m, q⟩

def mul (x y : Double) : Double := ofRatio (x.num * y.num) (x.den * y.den)

def div (x y : Double) : Double := ofRatio (x.num * y.den) (x.den * y.num)

def powerOfTen (n : Nat) : Double := ofRatio (Nat.pow 10 n) 1

end Double
end PZero
