import Protowire.Binary.Round

/-!
The fewest decimal digits that read back as the same number, and their layout. Of two such digit
strings the nearer one is taken, and of two equally near ones the greater.
-/

namespace Protowire.Binary

/-- `digits * 10 ^ exponent`. -/
structure Decimal where
  digits : Nat
  exponent : Int
  deriving DecidableEq, Repr

def digitCount (n : Nat) : Nat := (Nat.toDigits 10 n).length

/-- The exponent of the greatest power of ten that is at most `num / den`, for a fraction above 0.
-/
def floorLog10 (num den : Nat) : Int :=
  if den ≤ num then digitCount (num / den) - 1
  else -(digitCount ((den - 1) / num) : Int)

/-- The decimal without zeros at the end of its digits. -/
def Decimal.trim (d : Decimal) : Decimal :=
  let zeros := ((Nat.toDigits 10 d.digits).reverse.takeWhile (· = '0')).length
  if d.digits = 0 then d else ⟨d.digits / Nat.pow 10 zeros, d.exponent + zeros⟩

namespace Format

variable (F : Format)

/-- The bits of the number that a decimal reads as. -/
def ofDecimal (d : Decimal) : Nat :=
  let (num, den) := scaled 10 d.digits d.exponent
  F.round num den

/-- The decimal on the grid of `10 ^ exponent` that reads back as `bits`: one of the value's two
neighbours on that grid, the nearer one if both do. -/
def onGrid? (bits num den : Nat) (exponent : Int) : Option Decimal :=
  let num' := num * Nat.pow 10 (-exponent).toNat
  let den' := den * Nat.pow 10 exponent.toNat
  let low := num' / den'
  let rest := num' % den'
  let near := if 2 * rest < den' then [low, low + 1] else [low + 1, low]
  (near.map (Decimal.mk · exponent)).find? fun d => d.digits ≠ 0 ∧ F.ofDecimal d = bits

/-- The fewest digits that read back, for a finite magnitude above 0. A number of this format needs
at most `places` digits. -/
def shortest (places : Nat) (bits : Nat) : Decimal :=
  let (num, den) := F.toFraction bits
  let top := floorLog10 num den
  match (List.range places).findSome? fun (n : Nat) => F.onGrid? bits num den (top - n) with
  | some d => d.trim
  | none => ⟨num, 0⟩

/-- How many digits always suffice. -/
def places : Nat := (F.fractionBits + 1) * 30103 / 100000 + 2

end Format

/-! ### Layout -/

/-- From the fourth place after the point up to sixteen places before it, numbers are written out;
beyond that with an exponent. A number that is whole keeps one zero after the point. -/
def Decimal.layout (d : Decimal) : String :=
  let digits := Nat.toDigits 10 d.digits
  let top : Int := d.exponent + digits.length - 1
  if top < -4 ∨ 15 < top then
    let head := String.ofList (digits.take 1)
    let tail := String.ofList (digits.drop 1)
    head ++ (if tail.isEmpty then "" else "." ++ tail) ++ "e" ++ toString top
  else if top < 0 then
    "0." ++ String.ofList (List.replicate (-top - 1).toNat '0' ++ digits)
  else
    let whole := (top + 1).toNat
    let padded := digits ++ List.replicate (whole + 1 - digits.length) '0'
    String.ofList (padded.take whole) ++ "." ++ String.ofList (padded.drop whole)

/-- The text of any number of the format. -/
def Format.render (F : Format) (bits : Nat) : String :=
  if F.isNaN bits then "NaN"
  else
    let m := F.magnitude bits
    let text :=
      if m = F.infinity then "inf"
      else if m = 0 then "0.0"
      else (F.shortest F.places m).layout
    if F.isNegative bits then "-" ++ text else text

end Protowire.Binary
