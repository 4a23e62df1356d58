import PZero.Decimal
import PZero.Rounding
import PZero.Single.Basic

/-! # Rounding to single precision

A fraction is rounded to 24 binary digits. Decimals far outside the range are
settled without computing the power of ten.
-/
namespace PZero.Single

/-- The nearest single to the fraction `± num / den`. -/
def ofRatio (negative : Bool) (num den : Nat) : Single :=
  if num == 0 then ofMagnitude negative 0
  else
    let (m, q) := roundBinary 24 (-149) num den
    ofMagnitude negative (min infinite (((q + 149).toNat <<< 23) + m))

/-- The nearest single to a decimal. -/
def ofDecimal (d : Decimal) : Single :=
  if d.digits == 0 || d.magnitude < -60 then ofMagnitude d.negative 0
  else if 60 < d.magnitude then ofMagnitude d.negative infinite
  else ofRatio d.negative d.ratio.1 d.ratio.2

end PZero.Single
