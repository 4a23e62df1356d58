/-! # Single-precision numbers

A number is its 32-bit pattern. Sums, products and quotients are those of the
hardware; everything else, the order included, is computed from the pattern.
-/
namespace PZero

structure Single where
  bits : UInt32
  deriving DecidableEq, Inhabited

namespace Single

def zero : Single := ⟨0⟩

def isNegative (x : Single) : Bool := 0x80000000 ≤ x.bits

/-- The pattern without its sign; it grows with the absolute value. -/
def magnitude (x : Single) : Nat := x.bits.toNat % (1 <<< 31)

/-- The magnitude of infinity; those above it are not numbers. -/
def infinite : Nat := 0x7f800000

def isNaN (x : Single) : Bool := infinite < x.magnitude

def isInfinite (x : Single) : Bool := x.magnitude == infinite

def isFinite (x : Single) : Bool := x.magnitude < infinite

def isZero (x : Single) : Bool := x.magnitude == 0

/-- The number with the given sign and magnitude. -/
def ofMagnitude (negative : Bool) (magnitude : Nat) : Single :=
  ⟨UInt32.ofNat (magnitude + if negative then 1 <<< 31 else 0)⟩

def neg (x : Single) : Single := ⟨x.bits ^^^ 0x80000000⟩

/-- An operation of the hardware on patterns. -/
def lift (f : Float32 → Float32 → Float32) (x y : Single) : Single :=
  ⟨(f (Float32.ofBits x.bits) (Float32.ofBits y.bits)).toBits⟩

def add : Single → Single → Single := lift (· + ·)

def sub : Single → Single → Single := lift (· - ·)

def mul : Single → Single → Single := lift (· * ·)

def div : Single → Single → Single := lift (· / ·)

/-- A whole number that orders the numbers; both zeros get 0. -/
def key (x : Single) : Int := if x.isNegative then -(x.magnitude : Int) else x.magnitude

/-- The order of two numbers; nothing is said when one is not a number. -/
def compare? (x y : Single) : Option Ordering :=
  if x.isNaN || y.isNaN then none else some (compare x.key y.key)

/-- A finite number is `± mantissa · 2 ^ exponent` with these two parts. -/
def mantissa (x : Single) : Nat :=
  if x.magnitude < 1 <<< 23 then x.magnitude else x.magnitude % (1 <<< 23) + (1 <<< 23)

def exponent (x : Single) : Int :=
  if x.magnitude < 1 <<< 23 then -149 else (x.magnitude >>> 23 : Nat) - 150

end Single
end PZero
