import Protowire.Binary

/-!
Rounding a fraction to the nearest number of a format, a tie going to the even one. What is too
large becomes an infinity.
-/

namespace Protowire.Binary

/-- `num / den` rounded to a natural number, a tie going to the even one. -/
def roundDiv (num den : Nat) : Nat :=
  let q := num / den
  let r := num % den
  if 2 * r < den then q
  else if den < 2 * r then q + 1
  else q + q % 2

/-- The exponent of the greatest power of two that is at most `num / den`. -/
def floorLog2 (num den : Nat) : Int :=
  let e : Int := num.log2 - den.log2
  if num <<< (-e).toNat < den <<< e.toNat then e - 1 else e

namespace Format

variable (F : Format)

/-- The bits of the number nearest to `num / den`. -/
def round (num den : Nat) : Nat :=
  if num = 0 then 0
  else
    let place := max (floorLog2 num den - F.fractionBits) F.minExponent
    let digits := roundDiv (num <<< (-place).toNat) (den <<< place.toNat)
    min ((place - F.minExponent).toNat <<< F.fractionBits + digits) F.infinity

def roundInt (n : Int) : Nat := F.withSign (n < 0) (F.round n.natAbs 1)

/-- The nearest number of another format. A NaN becomes the quiet one. -/
def convert (target : Format) (bits : Nat) : Nat :=
  let magnitude :=
    if F.isNaN bits then target.quietNaN
    else if F.isInfinite bits then target.infinity
    else
      let (num, den) := F.toFraction bits
      target.round num den
  target.withSign (F.isNegative bits) magnitude

end Format

end Protowire.Binary
