import PZero.Single.Rounding
import PZero.Single.Shortest

/-! # Number texts

One layout of shortest digits serves every place where a number is written; the
places differ in a few decisions that a `Layout` records. Fixed places round the
exact value.
-/
namespace PZero.Single

/-- How the shortest digits of a number are set. -/
structure Layout where
  /-- Whether a number is written without an exponent, by the exponent of its first digit. -/
  positional : Int → Bool
  /-- Whether whole numbers end in `.0`. -/
  pointZero : Bool
  /-- Whether a positive exponent shows its sign. -/
  plus : Bool
  tie : Tie

def sign (x : Single) : String := if x.isNegative then "-" else ""

def zeros (n : Nat) : String := String.ofList (List.replicate n '0')

/-- Digits with a decimal point behind the first `point` of them, zeros filling the gaps. -/
def positionalText (digits : List Char) (point : Int) (pointZero : Bool) : String :=
  if point ≤ 0 then "0." ++ zeros (-point).toNat ++ String.ofList digits
  else if point < digits.length then
    String.ofList (digits.take point.toNat) ++ "." ++ String.ofList (digits.drop point.toNat)
  else
    String.ofList digits ++ zeros (point.toNat - digits.length) ++ if pointZero then ".0" else ""

/-- One digit, the others behind a point, and the exponent of the first. -/
def exponentText (digits : List Char) (exponent : Int) (plus : Bool) : String :=
  String.ofList (digits.take 1) ++
    (if digits.length ≤ 1 then "" else "." ++ String.ofList (digits.drop 1)) ++
    "e" ++ (if plus && 0 ≤ exponent then "+" else "") ++ toString exponent

namespace Layout

def magnitudeText (l : Layout) (x : Single) : String :=
  if x.isZero then if l.pointZero then "0.0" else "0"
  else
    let (n, g) := shortest l.tie x
    let digits := Nat.toDigits 10 n
    let point := digits.length + g
    if l.positional (point - 1) then positionalText digits point l.pointZero
    else exponentText digits (point - 1) l.plus

def text (l : Layout) (x : Single) : String := x.sign ++ l.magnitudeText x

end Layout

/-- A number that need not be finite: the finite ones are written by `finite`. -/
def textWith (infinity : String) (finite : Single → String) (x : Single) : String :=
  if x.isNaN then "NaN" else if x.isInfinite then x.sign ++ infinity else finite x

/-- Never an exponent, whole numbers without a point. -/
def plain : Layout :=
  { positional := fun _ => true, pointZero := false, plus := false, tie := .up }

/-- With a point below `10 ^ 16` and from `10 ^ (-4)` on. -/
def listing : Layout :=
  { positional := fun e => -4 ≤ e && e < 16, pointZero := true, plus := false, tie := .up }

/-- With a point below `10 ^ 13` and from `10 ^ (-6)` on. -/
def data : Layout :=
  { positional := fun e => -6 ≤ e && e < 13, pointZero := true, plus := true, tie := .even }

def plainText : Single → String := textWith "inf" plain.text

def listingText : Single → String := textWith "inf" listing.text

/-- The exact value rounded to a number of decimal places, a tie to the even neighbour. -/
def fixedText (places : Nat) (x : Single) : String :=
  let scale := Nat.pow 10 places
  let n := roundHalfEven ((x.mantissa <<< x.exponent.toNat) * scale) (1 <<< (-x.exponent).toNat)
  let whole := toString (n / scale)
  let fraction := toString (n % scale)
  x.sign ++ whole ++
    if places == 0 then "" else "." ++ zeros (places - fraction.length) ++ fraction

/-- The digits of a program literal: either side of the point may be empty, not both. -/
def unsignedDecimal? (negative : Bool) (cs : List Char) : Option Decimal :=
  let (whole, rest) := Decimal.spanDigits cs
  let (fraction, rest) := Decimal.fraction? rest
  let fraction := fraction.getD []
  if whole.isEmpty && fraction.isEmpty then none
  else (Decimal.exponent? rest).map (Decimal.ofParts negative whole fraction ·)

/-- Reads a signed decimal, or one of the words for infinity and for what is not a number. -/
def ofText? (s : String) : Option Single :=
  let (negative, cs) := match s.toList with
    | '-' :: rest => (true, rest)
    | '+' :: rest => (false, rest)
    | rest => (false, rest)
  let word := String.ofList (cs.map Char.toLower)
  if word == "inf" || word == "infinity" then some (ofMagnitude negative infinite)
  else if word == "nan" then some (ofMagnitude negative 0x7fc00000)
  else (unsignedDecimal? negative cs).map ofDecimal

end PZero.Single
