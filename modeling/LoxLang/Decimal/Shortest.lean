/-!
# The shortest decimal of a floating point number

A finite floating point number stands for an interval of reals: all those that are rounded to it.
Its shortest decimal is the decimal with the fewest digits in that interval, and among those the
one nearest to the number itself; of two that are equally near, the larger.

Everything here is exact arithmetic on natural numbers. A number is brought to the form `Rounding`,
its value and both ends of its interval over a common denominator, and the decimal grids are tried
from the coarsest to the finest. If a point of a grid lies in the interval then so does one of the
two grid points around the number, because the number itself lies in the interval; so two
candidates a grid are enough. Seventeen digits always suffice for a number of 64 bits.
-/

namespace LoxLang

/-- A decimal: `digits` times ten to the `exponent`. -/
structure Decimal where
  /-- All digits, read as one natural number. -/
  digits : Nat
  /-- The power of ten that the last digit counts. -/
  exponent : Int
deriving DecidableEq, Repr

namespace Decimal

/-- Ten to the exponent if that is positive, and one otherwise. -/
def tensAbove (exponent : Int) : Nat := Nat.pow 10 exponent.toNat

/-- Ten to the negated exponent if that is positive, and one otherwise. Ten to any exponent is
`tensAbove` divided by `tensBelow`. -/
def tensBelow (exponent : Int) : Nat := Nat.pow 10 (-exponent).toNat

/-- A positive number with the interval of reals that are rounded to it, all over one denominator.
The ends belong to the interval exactly if `inclusive` holds. -/
structure Rounding where
  /-- Numerator of the number. -/
  value : Nat
  /-- Numerator of the lower end. -/
  low : Nat
  /-- Numerator of the upper end. -/
  high : Nat
  /-- The common denominator. -/
  unit : Nat
  /-- Whether the ends are rounded to the number too. -/
  inclusive : Bool
deriving DecidableEq, Repr

namespace Rounding

/-- The interval of `significand · 2 ^ exponent`. It reaches half way to the neighbours; below a
power of two the neighbour is only half as far, which `closeBelow` says. -/
def ofBinary (significand : Nat) (exponent : Int) (closeBelow : Bool) : Rounding :=
  let scale := Nat.pow 2 (exponent - 2).toNat
  { value := 4 * significand * scale
    low := (4 * significand - if closeBelow then 1 else 2) * scale
    high := (4 * significand + 2) * scale
    unit := Nat.pow 2 (2 - exponent).toNat
    inclusive := significand % 2 == 0 }

/-- Whether the decimal is rounded to the number. -/
def accepts (r : Rounding) (d : Decimal) : Bool :=
  let point := d.digits * tensAbove d.exponent * r.unit
  let low := r.low * tensBelow d.exponent
  let high := r.high * tensBelow d.exponent
  if r.inclusive then low ≤ point && point ≤ high else low < point && point < high

/-- The largest point of the grid of spacing `10 ^ exponent` that is not above the number. -/
def below (r : Rounding) (exponent : Int) : Decimal :=
  { digits := r.value * tensBelow exponent / (r.unit * tensAbove exponent), exponent }

/-- Whether the number is strictly nearer to the grid point `d` than to the next one. -/
def nearerBelow (r : Rounding) (d : Decimal) : Bool :=
  2 * r.value * tensBelow d.exponent < (2 * d.digits + 1) * tensAbove d.exponent * r.unit

/-- The best decimal on the grid of spacing `10 ^ exponent`, if one is rounded to the number. -/
def onGrid? (r : Rounding) (exponent : Int) : Option Decimal :=
  let lower := r.below exponent
  let upper := { lower with digits := lower.digits + 1 }
  match r.accepts lower, r.accepts upper with
  | true, true => some (if r.nearerBelow lower then lower else upper)
  | true, false => some lower
  | false, true => some upper
  | false, false => none

/-- The power of ten just above the number: the least `e` with the number below `10 ^ e`. -/
def magnitude (r : Rounding) : Int :=
  if r.unit ≤ r.value then
    (Nat.toDigits 10 (r.value / r.unit)).length
  else
    let places := (Nat.toDigits 10 (r.unit / r.value)).length
    if r.unit ≤ r.value * Nat.pow 10 (places - 1) then 2 - places else 1 - places

/-- The shortest decimal that is rounded to the number. -/
def shortest (r : Rounding) : Decimal :=
  let e := r.magnitude
  ((List.range 18).findSome? fun (n : Nat) ↦ r.onGrid? (e - n)).getD (r.below (e - 17))

end Rounding

/-- The digits in positional notation, without an exponent and without a point for a whole
number. -/
def positional (d : Decimal) : String :=
  let digits := Nat.toDigits 10 d.digits
  let hidden := (-d.exponent).toNat
  if hidden = 0 then
    String.ofList (digits ++ List.replicate d.exponent.toNat '0')
  else if hidden < digits.length then
    let whole := digits.length - hidden
    String.ofList (digits.take whole ++ '.' :: digits.drop whole)
  else
    String.ofList ('0' :: '.' :: List.replicate (hidden - digits.length) '0' ++ digits)

/-- The interval of the positive floating point number with these bits, whose sign bit is clear.
A number with biased exponent zero has no leading one. -/
def roundingOfBits (bits : UInt64) : Rounding :=
  let fraction := (bits &&& 0xFFFFFFFFFFFFF).toNat
  let biased := ((bits >>> 52) &&& 0x7FF).toNat
  if biased = 0 then .ofBinary fraction (-1074) false
  else .ofBinary (fraction + 0x10000000000000) (biased - 1075 : Int) (fraction = 0 && 1 < biased)

/-- A floating point number as text: the shortest decimal in positional notation, with the sign
also of a negative zero, and words for what is not finite. -/
def ofFloat (x : Float) : String :=
  if x.isNaN then "NaN"
  else
    let bits := x.toBits
    let sign := if bits >>> 63 = 0 then "" else "-"
    if x.isInf then sign ++ "inf"
    else
      let rest := bits &&& 0x7FFFFFFFFFFFFFFF
      if rest = 0 then sign ++ "0"
      else sign ++ (roundingOfBits rest).shortest.positional

end Decimal

end LoxLang
